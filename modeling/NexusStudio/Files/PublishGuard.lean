import NexusStudio.Files.Confinement

/-!
# The directories that `publish_file` keeps back

`publish_file` refuses the skills, the scraped raw files and the browser sessions by the text of its argument, and opens
the file at the resolved path.

* (texts) The dots and slashes at the front are stripped, with the dot of `.browser`: that check never refuses.
* (law) `Guarded`: what is resolved to a place in one of the directories is refused.
* (condition) `guarded_iff`: exactly the paths whose text is in `skills` or `raw`, or which lead to nothing that can be
  published.
* (spellings) A relative path without parent segments that leads into `skills` or `raw` is such a text.
-/

namespace NexusStudio.Files

/-- The directories of a workspace that are not published. -/
def keptBack : List String := ["skills", "raw", ".browser"]

/-- One of the directories, or a place in it. -/
def KeptBack (w t : Path) : Prop := ∃ d ∈ keptBack, w ++ [d] <+: t

instance (w t : Path) : Decidable (KeptBack w t) := inferInstanceAs (Decidable (∃ d ∈ keptBack, _))

/-- `publish_file` for a path that the file system resolves to `location`, `none` where it raises. -/
def publishAt (location : Option Path) (configured : Bool) (fs : Fs) (workspace : Path) (path : String)
    (filename : Option String) (attachmentId : Nat) : Except Raised ToolResult × Option Published :=
  if isSkillsPath path then (.ok (.fail INVALID_ARGUMENTS PUBLISH_SKILLS_REJECT_DETAIL ""), none)
  else if isBrowserRawPath path then (.ok (.fail INVALID_ARGUMENTS PUBLISH_BROWSER_RAW_REJECT_DETAIL ""), none)
  else if isBrowserInternalPath path then
    (.ok (.fail INVALID_ARGUMENTS PUBLISH_BROWSER_INTERNAL_REJECT_DETAIL ""), none)
  else
    match location.filter fun t => workspace.inside t with
    | none => (.ok (pathEscapeError path), none)
    | some target =>
      match fs.node target with
      | some (.file content) =>
        if ¬ configured then (.ok (.fail INTERNAL "object storage not configured" ""), none)
        else
          let uploadName := match filename with
            | some f => if f = "" then target.getLastD "" else f
            | none => target.getLastD ""
          (ToolResult.ok ("published attachment_id=" ++ toString attachmentId ++ " filename=" ++ uploadName),
            some ⟨attachmentId, uploadName, path, content⟩)
      | _ => (.ok (.fail FILE_NOT_FOUND ("publish_file: file not found: " ++ path) ""), none)

/-- Without links the location is what the parts of the path lead to. -/
def resolved (w : Path) (path : String) : Option Path :=
  if Char.ofNat 0 ∈ path.toList then none else some (join w path)

/-- The call gives a failure and stores nothing. -/
def Rejected (out : Except Raised ToolResult × Option Published) : Prop :=
  out.2 = none ∧ ∃ r, out.1 = .ok r ∧ r.success = false

/-- What is resolved to a place in one of the directories is refused. -/
def Guarded (location : Option Path) (configured : Bool) (fs : Fs) (w : Path) (path : String)
    (filename : Option String) (attachmentId : Nat) : Prop :=
  (∃ t ∈ location, KeptBack w t) → Rejected (publishAt location configured fs w path filename attachmentId)

variable {w t : Path} {fs : Fs} {path : String} {location : Option Path} {configured : Bool}
  {filename : Option String} {attachmentId : Nat}

theorem publishFile_eq :
    publishFile configured fs w path filename attachmentId =
      publishAt (resolved w path) configured fs w path filename attachmentId := by
  have hfilter : (resolved w path).filter (fun t => w.inside t) = resolveWorkspaceFile w path := by
    unfold resolved resolveWorkspaceFile
    split
    · rfl
    · by_cases hin : w.inside (join w path)
      · rw [if_pos hin]
        simp [hin]
      · rw [if_neg hin]
        simp [hin]
  rw [publishFile, publishAt, hfilter]
  all_goals rfl

/-! ### Texts -/

/-- The text that the checks see begins with neither a dot nor a slash. -/
theorem head_normalized (path : String) : ∀ c ∈ (normalized path).head?, c ≠ '.' ∧ c ≠ '/' := by
  intro c hc
  have hnot := List.head?_dropWhile_not (fun c => decide (c = '.' ∨ c = '/'))
    (path.toList.map fun c => if c = '\\' then '/' else c)
  rw [normalized, Option.mem_def] at hc
  rw [hc] at hnot
  simpa using hnot

/-- The check for the session directory never refuses. -/
theorem isBrowserInternalPath_eq_false (path : String) : isBrowserInternalPath path = false := by
  have hdot : ∀ rest, normalized path ≠ '.' :: rest := by
    intro rest h
    exact (head_normalized path '.' (by rw [h]; rfl)).1 rfl
  refine decide_eq_false ?_
  rintro (h | ⟨rest, h⟩)
  · exact hdot _ h
  · exact hdot _ h.symm

/-! ### The law -/

theorem KeptBack.inside (h : KeptBack w t) : w.inside t := by
  obtain ⟨d, -, hpre⟩ := h
  exact text_mono ((List.prefix_append w [d]).trans hpre)

/-- The location is a file that can be stored. -/
def Publishable (location : Option Path) (configured : Bool) (fs : Fs) : Prop :=
  configured = true ∧ ∃ t ∈ location, ∃ content, fs.node t = some (.file content)

theorem rejected_of_recognised (h : isSkillsPath path = true ∨ isBrowserRawPath path = true) :
    Rejected (publishAt location configured fs w path filename attachmentId) := by
  unfold publishAt
  by_cases hskills : isSkillsPath path = true
  · rw [if_pos hskills]
    exact ⟨rfl, _, rfl, rfl⟩
  · rw [if_neg hskills, if_pos (h.resolve_left hskills)]
    exact ⟨rfl, _, rfl, rfl⟩

/-- What the checks let pass is refused exactly where there is nothing to publish. -/
theorem rejected_iff (hin : ∀ t ∈ location, w.inside t) (hskills : isSkillsPath path = false)
    (hraw : isBrowserRawPath path = false) :
    Rejected (publishAt location configured fs w path filename attachmentId) ↔
      ¬ Publishable location configured fs := by
  have hchecks : ∀ b : Bool, b = false → ¬ b = true := fun b hb => by rw [hb]; exact Bool.false_ne_true
  unfold publishAt
  rw [if_neg (hchecks _ hskills), if_neg (hchecks _ hraw), if_neg (hchecks _ (isBrowserInternalPath_eq_false path))]
  cases location with
  | none =>
    refine iff_of_true ⟨rfl, _, rfl, rfl⟩ ?_
    rintro ⟨-, t, ht, -⟩
    cases ht
  | some t =>
    have hfilter : (some t).filter (fun t => decide (w.inside t)) = some t := by simp [hin t rfl]
    have hpub : Publishable (some t) configured fs ↔ configured = true ∧ ∃ content, fs.node t = some (.file content) := by
      simp [Publishable]
    rw [hfilter, hpub]
    dsimp only
    generalize fs.node t = n
    rcases n with _ | _ | content
    · exact iff_of_true ⟨rfl, _, rfl, rfl⟩ (by rintro ⟨-, content, h⟩; cases h)
    · exact iff_of_true ⟨rfl, _, rfl, rfl⟩ (by rintro ⟨-, content, h⟩; cases h)
    · cases configured with
      | true => exact iff_of_false (by rintro ⟨h, -⟩; cases h) (not_not.2 ⟨rfl, content, rfl⟩)
      | false => exact iff_of_true ⟨rfl, _, rfl, rfl⟩ (by rintro ⟨h, -⟩; cases h)

/-- A path that leads into one of the directories is refused if and only if its text is recognised as one of `skills`
or `raw`, or there is nothing at its location that can be published. -/
theorem guarded_iff (location : Option Path) (configured : Bool) (fs : Fs) (w : Path) (path : String)
    (filename : Option String) (attachmentId : Nat) :
    Guarded location configured fs w path filename attachmentId ↔
      ((∃ t ∈ location, KeptBack w t) → Publishable location configured fs →
        isSkillsPath path = true ∨ isBrowserRawPath path = true) := by
  refine imp_congr_right fun hkept => ?_
  have hin : ∀ t ∈ location, w.inside t := by
    obtain ⟨t, ht, hk⟩ := hkept
    intro t' ht'
    rw [Option.mem_unique ht' ht]
    exact hk.inside
  by_cases hrec : isSkillsPath path = true ∨ isBrowserRawPath path = true
  · exact iff_of_true (rejected_of_recognised hrec) fun _ => hrec
  · have hpass := not_or.1 hrec
    rw [rejected_iff hin (Bool.not_eq_true _ ▸ hpass.1) (Bool.not_eq_true _ ▸ hpass.2)]
    exact ⟨fun hn hp => absurd hp hn, fun h hp => hrec (h hp)⟩

/-! ### Spellings -/

/-- The characters that the checks see, up to the strip. -/
def slashes (l : List Char) : List Char := l.map fun c => if c = '\\' then '/' else c

/-- Of parts that begin with empty ones and dots, the checks see the first one that is neither, and what follows. -/
theorem dropWhile_parts {d : String} (hne : d.toList ≠ []) (hd : ∀ c ∈ d.toList, c ≠ '.' ∧ c ≠ '/' ∧ c ≠ '\\')
    {l rest : List String} (hl : l.filter (fun part => part ≠ "" ∧ part ≠ ".") = d :: rest) :
    ∃ tail, (slashes (['/'].intercalate (l.map String.toList))).dropWhile (fun c => c = '.' ∨ c = '/') =
      d.toList ++ tail ∧ ∀ c ∈ tail.head?, c = '/' := by
  induction l with
  | nil => cases hl
  | cons part l ih =>
    by_cases hskip : part ≠ "" ∧ part ≠ "."
    · have hkeep : decide (part ≠ "" ∧ part ≠ ".") = true := decide_eq_true hskip
      rw [List.filter_cons, if_pos hkeep, List.cons.injEq] at hl
      obtain ⟨rfl, -⟩ := hl
      have hself : slashes part.toList = part.toList := by
        refine (List.map_congr_left fun c hc => if_neg (hd c hc).2.2).trans (List.map_id _)
      have hstop : ∀ tail, (part.toList ++ tail).dropWhile (fun c => decide (c = '.' ∨ c = '/')) =
          part.toList ++ tail := by
        intro tail
        obtain ⟨c, r, hcr⟩ := List.exists_cons_of_ne_nil hne
        have hc := hd c (hcr ▸ List.mem_cons_self)
        rw [hcr, List.cons_append, List.dropWhile_cons_of_neg (by simp [hc.1, hc.2.1])]
      by_cases hnil : l = []
      · refine ⟨[], ?_, nofun⟩
        have h := hstop []
        rw [List.append_nil] at h
        rw [hnil, List.map_singleton, List.intercalate_singleton, hself, h, List.append_nil]
      · refine ⟨'/' :: slashes (['/'].intercalate (l.map String.toList)), ?_, fun c hc => (Option.some.inj hc).symm⟩
        rw [List.map_cons, List.intercalate_cons_of_ne_nil (by simpa using hnil)]
        have hsplit : slashes (part.toList ++ ['/'] ++ ['/'].intercalate (l.map String.toList)) =
            part.toList ++ '/' :: slashes (['/'].intercalate (l.map String.toList)) := by
          rw [slashes, List.map_append, List.map_append]
          change slashes part.toList ++ _ ++ _ = _
          rw [hself]
          simp [slashes]
        rw [hsplit, hstop]
    · rw [List.filter_cons_of_neg (by simpa using hskip)] at hl
      have hnil : l ≠ [] := by
        rintro rfl
        cases hl
      have hpart : part = "" ∨ part = "." := by
        by_contra h
        exact hskip (not_or.1 h)
      obtain ⟨tail, htail, hhead⟩ := ih hl
      refine ⟨tail, ?_, hhead⟩
      rw [List.map_cons, List.intercalate_cons_of_ne_nil (by simpa using hnil), ← htail]
      rcases hpart with rfl | rfl
      · rfl
      · rfl

/-- A relative path without parent segments goes down from the workspace. -/
theorem join_forward {w : Path} {path : String} (hrel : path.toList.head? ≠ some '/') (hup : ".." ∉ parts path) :
    join w path = w ++ (parts path).filter fun part => part ≠ "" ∧ part ≠ "." := by
  have hfold : ∀ (l : List String) (p : Path), ".." ∉ l →
      l.foldl Path.enter p = p ++ l.filter fun part => part ≠ "" ∧ part ≠ "." := by
    intro l
    induction l with
    | nil => intro p _; exact (List.append_nil p).symm
    | cons part l ih =>
      intro p hl
      rw [List.foldl_cons, ih _ fun h => hl (List.mem_cons_of_mem part h)]
      have hne : part ≠ ".." := fun h => hl (h ▸ List.mem_cons_self)
      by_cases hskip : part = "" ∨ part = "."
      · have hdrop : decide (part ≠ "" ∧ part ≠ ".") = false := decide_eq_false fun h => hskip.elim h.1 h.2
        rw [Path.enter, if_pos hskip, List.filter_cons, hdrop, if_neg Bool.false_ne_true]
      · have hkeep : decide (part ≠ "" ∧ part ≠ ".") = true := decide_eq_true (not_or.1 hskip)
        rw [Path.enter, if_neg hskip, if_neg hne, List.filter_cons, if_pos hkeep, List.append_assoc]
        rfl
  rw [join, if_neg hrel, hfold _ _ hup]

/-- A relative path without parent segments that leads into `skills` or `raw` is refused. -/
theorem recognised_of_forward {w : Path} {path : String} (hrel : path.toList.head? ≠ some '/') (hup : ".." ∉ parts path)
    {d : String} (hd : d = "skills" ∨ d = "raw") (hpre : w ++ [d] <+: join w path) :
    isSkillsPath path = true ∨ isBrowserRawPath path = true := by
  have hne : d.toList ≠ [] := by rcases hd with rfl | rfl <;> decide
  have hall : d.toList.all (fun c => decide (c ≠ '.' ∧ c ≠ '/' ∧ c ≠ '\\')) = true := by
    rcases hd with rfl | rfl <;> decide
  have hchars : ∀ c ∈ d.toList, c ≠ '.' ∧ c ≠ '/' ∧ c ≠ '\\' := fun c hc =>
    of_decide_eq_true (List.all_eq_true.1 hall c hc)
  rw [join_forward hrel hup, List.prefix_append_right_inj] at hpre
  obtain ⟨rest, hrest⟩ := hpre
  obtain ⟨tail, htail, hhead⟩ := dropWhile_parts hne hchars hrest.symm
  have hnorm : normalized path = d.toList ++ tail := by
    rw [← htail, normalized, slashes]
    have hparts : ['/'].intercalate ((parts path).map String.toList) = path.toList := by
      have hid : String.toList ∘ String.ofList = id := funext fun l => String.toList_ofList
      rw [parts, List.map_map, hid, List.map_id]
      exact List.intercalate_splitOn '/'
    rw [hparts]
  have hin : isPathIn d path = true := by
    refine decide_eq_true ?_
    rw [hnorm]
    cases tail with
    | nil => exact .inl (List.append_nil _)
    | cons c tail =>
      obtain rfl : c = '/' := hhead c rfl
      refine .inr ⟨tail, ?_⟩
      simp
  rcases hd with rfl | rfl
  · exact .inl hin
  · exact .inr hin

/-! ### What gets out -/

section Examples

open Workshop.Isolation

/-- The workspace of the first conversation of the first user. -/
def chatWorkspace : Path := (Party.conversation 1 1).workspace deployment

/-- A workspace with a stored browser session and a skill. -/
def sessionFiles : Fs :=
  ⟨(chatWorkspace.inits.tail.map fun p => (p, .dir)) ++
    [(chatWorkspace ++ [".browser"], .dir), (chatWorkspace ++ [".browser", "storage"], .dir),
      (chatWorkspace ++ [".browser", "storage", "example.com.json"], .file "\x7b\"cookies\": []\x7d"),
      (chatWorkspace ++ ["skills"], .dir), (chatWorkspace ++ ["skills", "docx"], .dir),
      (chatWorkspace ++ ["skills", "docx", "SKILL.md"], .file "# docx")]⟩

/-- The file of a browser session is published under its plain path; a skill is published through a parent segment, and
through a path that names the workspace. -/
theorem not_guarded :
    ¬ ∃ path ∈ [".browser/storage/example.com.json", "./.browser//storage/example.com.json",
        "output/../skills/docx/SKILL.md", "../1/skills/docx/SKILL.md"],
      Guarded (resolved chatWorkspace path) true sessionFiles chatWorkspace path none 1 := by
  have hpublished : ∀ path ∈ [".browser/storage/example.com.json", "./.browser//storage/example.com.json",
      "output/../skills/docx/SKILL.md", "../1/skills/docx/SKILL.md"],
      (∃ t ∈ resolved chatWorkspace path, KeptBack chatWorkspace t) ∧
      (publishAt (resolved chatWorkspace path) true sessionFiles chatWorkspace path none 1).2.isNone = false := by
    decide
  rintro ⟨path, hpath, h⟩
  obtain ⟨hkept, hsome⟩ := hpublished path hpath
  rw [(h hkept).1] at hsome
  cases hsome

end Examples

end NexusStudio.Files
