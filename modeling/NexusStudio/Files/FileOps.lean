import Mathlib

/-!
# The file tools of the agents

The paths of `pathlib` without symbolic links, a file system as a list of entries, and the tools over it.

* (paths) `resolveWorkspaceFile` accepts a path by a test on its text.
* (tools) `read_file`, `write_file`, `list_files` and `publish_file`, with the texts of their results.
-/

namespace NexusStudio.Files

/-! ### Paths -/

/-- An absolute path, by its parts. -/
abbrev Path := List String

/-- `str(path)`. -/
def Path.text (p : Path) : String := "/" ++ "/".intercalate p

/-- One more part of a path that is resolved. -/
def Path.enter (p : Path) (part : String) : Path :=
  if part = "" ∨ part = "." then p
  else if part = ".." then p.dropLast
  else p ++ [part]

def parts (path : String) : List String := (path.toList.splitOn '/').map String.ofList

/-- `(workspace / path).resolve()`: an absolute `path` replaces the workspace. -/
def join (workspace : Path) (path : String) : Path :=
  (parts path).foldl Path.enter (if path.toList.head? = some '/' then [] else workspace)

/-- The path begins, as text, with the path of the workspace. -/
def Path.inside (workspace target : Path) : Prop := workspace.text.toList <+: target.text.toList

instance (workspace target : Path) : Decidable (workspace.inside target) := inferInstanceAs (Decidable (_ <+: _))

/-- `try_resolve_workspace_path`, with `resolve_workspace_file`; a null character cannot be resolved. -/
def resolveWorkspaceFile (workspace : Path) (path : String) : Option Path :=
  if Char.ofNat 0 ∈ path.toList then none
  else if workspace.inside (join workspace path) then some (join workspace path)
  else none

/-- The name of `Path(path)`. -/
def name (path : String) : String := ((parts path).filter fun part => part ≠ "" ∧ part ≠ ".").getLastD ""

/-- The characters of a suffix, in lower case: only the Kelvin sign becomes ASCII without being so. -/
def lower (c : Char) : Char := if c = Char.ofNat 0x212A then 'k' else c.toLower

/-- `suffix.lower()` of a name. -/
def suffix (name : String) : String :=
  let ext := name.toList.reverse.takeWhile (· ≠ '.')
  if 0 < ext.length ∧ ext.length + 1 < name.length then String.ofList ('.' :: ext.reverse.map lower) else ""

/-! ### File system -/

inductive Node
  | dir
  | file (content : String)
  deriving DecidableEq, Repr

def Node.isFile : Node → Bool
  | file _ => true
  | dir => false

/-- All directories and files but the root. -/
structure Fs where
  entries : List (Path × Node)
  deriving DecidableEq, Repr

/-- What a tool can raise. -/
inductive Raised
  | isADirectory
  | notADirectory
  | fileExists
  | notInSubpath
  | emptyOutput
  deriving DecidableEq, Repr

namespace Fs

def node (fs : Fs) (p : Path) : Option Node :=
  if p = [] then some .dir else (fs.entries.find? fun e => e.1 = p).map Prod.snd

def present (fs : Fs) (p : Path) : Bool := (fs.node p).isSome

def isFile (fs : Fs) (p : Path) : Bool := (fs.node p).any Node.isFile

def put (fs : Fs) (p : Path) (n : Node) : Fs := ⟨(fs.entries.filter fun e => e.1 ≠ p) ++ [(p, n)]⟩

/-- The directory `p`, when it is missing. -/
def ensureDir (fs : Fs) (p : Path) : Fs := if fs.present p then fs else fs.put p .dir

/-- `mkdir(parents=True, exist_ok=True)`. -/
def mkdir (fs : Fs) (p : Path) : Except Raised Fs :=
  if fs.isFile p then .error .fileExists
  else if p.inits.any fs.isFile then .error .notADirectory
  else .ok (p.inits.foldl ensureDir fs)

/-- `write_text`. -/
def writeText (fs : Fs) (p : Path) (content : String) : Except Raised Fs :=
  if fs.node p = some .dir then .error .isADirectory else .ok (fs.put p (.file content))

/-- `rglob("*")`, sorted. -/
def rglob (fs : Fs) (p : Path) : List Path :=
  ((fs.entries.map Prod.fst).filter fun q => p <+: q ∧ q ≠ p).insertionSort (· ≤ ·)

end Fs

/-! ### Tools -/

structure ToolResult where
  success : Bool
  output : String
  errorType : Option String
  errorDetail : Option String
  deriving DecidableEq, Repr

/-- `ToolResult.ok`: an empty output is refused. -/
def ToolResult.ok (output : String) : Except Raised ToolResult :=
  if output = "" then .error .emptyOutput else .ok ⟨true, output, none, none⟩

def ToolResult.fail (errorType detail output : String) : ToolResult := ⟨false, output, some errorType, some detail⟩

def INVALID_ARGUMENTS : String := "invalid_arguments"
def FILE_NOT_FOUND : String := "file_not_found"
def INTERNAL : String := "internal"

def ALLOWED_WRITE_SUFFIXES : List String :=
  [".txt", ".md", ".markdown", ".csv", ".json", ".jsonl", ".xml", ".html", ".htm", ".yaml", ".yml", ".log", ".py",
    ".sh", ".sql", ".tsv"]

def READ_BINARY_SUFFIXES : List String :=
  [".docx", ".doc", ".xlsx", ".xls", ".pptx", ".ppt", ".pdf", ".zip", ".png", ".jpg", ".jpeg", ".gif", ".webp", ".bin"]

def WRITE_FILE_REJECT_DETAIL : String :=
  "此工具只能写 UTF-8 文本文件，二进制或 Office 格式请用 execute_python 生成"

def READ_BINARY_REJECT_DETAIL : String :=
  "这是二进制/Office 文件，read_file 无法正确读取。" ++
  " docx 请用 execute_python 运行 skills/docx/scripts/office/unpack.py 解包后再读 unpacked/ 下的文本。"

def PATH_ESCAPE_DETAIL : String :=
  "path must be relative to the workspace root (no absolute paths or .. segments)"

def PUBLISH_SKILLS_REJECT_DETAIL : String :=
  "这是系统内部 skill 文件，不是可交付物；请将 execute_python 生成的输出 publish_file"

def PUBLISH_BROWSER_RAW_REJECT_DETAIL : String :=
  "browser/raw 为抓取中间产物目录，请 ETL 清洗后再 publish 最终文件"

def PUBLISH_BROWSER_INTERNAL_REJECT_DETAIL : String :=
  ".browser/ 为会话存储目录，不可 publish；请 publish 清洗后的 output 文件"

def pathEscapeError (path : String) : ToolResult :=
  .fail INVALID_ARGUMENTS (PATH_ESCAPE_DETAIL ++ "\npath: " ++ path) ""

/-- The newlines of a text file that is read. -/
def universalNewlines : List Char → List Char
  | '\r' :: '\n' :: l => '\n' :: universalNewlines l
  | '\r' :: l => '\n' :: universalNewlines l
  | c :: l => c :: universalNewlines l
  | [] => []

def truncate (maxChars : Nat) (text : String) : String :=
  if maxChars < text.length then
    String.ofList (text.toList.take maxChars) ++ "\n\n[truncated: 文件共 " ++ toString text.length ++
      " 字符，仅显示前 " ++ toString maxChars ++ "]"
  else text

def readWorkspaceFile (fs : Fs) (workspace : Path) (path : String) : Except Raised ToolResult :=
  match resolveWorkspaceFile workspace path with
  | none => .ok (pathEscapeError path)
  | some target =>
    match fs.node target with
    | none => .ok (.fail FILE_NOT_FOUND ("file not found: " ++ path) ("file not found: " ++ path))
    | some n =>
      if suffix (target.getLastD "") ∈ READ_BINARY_SUFFIXES then
        .ok (.fail INVALID_ARGUMENTS (READ_BINARY_REJECT_DETAIL ++ "\npath: " ++ path) "")
      else
        match n with
        | .dir => .error .isADirectory
        | .file content => .ok (truncate 20000 (String.ofList (universalNewlines content.toList))) >>= ToolResult.ok

def writeWorkspaceFile (fs : Fs) (workspace : Path) (path content : String) : Fs × Except Raised ToolResult :=
  if suffix (name path) ∉ ALLOWED_WRITE_SUFFIXES then (fs, .ok (.fail INVALID_ARGUMENTS WRITE_FILE_REJECT_DETAIL ""))
  else
    match resolveWorkspaceFile workspace path with
    | none => (fs, .ok (pathEscapeError path))
    | some target =>
      match fs.mkdir target.dropLast with
      | .error e => (fs, .error e)
      | .ok fs =>
        match fs.writeText target content with
        | .error e => (fs, .error e)
        | .ok fs => (fs, ToolResult.ok ("wrote " ++ path ++ " (" ++ toString content.length ++ " bytes)"))

def listWorkspaceFiles (fs : Fs) (workspace : Path) (path : String) : Except Raised ToolResult :=
  match resolveWorkspaceFile workspace path with
  | none => .ok (pathEscapeError path)
  | some target =>
    if ¬ fs.present target then .ok (.fail FILE_NOT_FOUND ("not found: " ++ path) ("not found: " ++ path))
    else if fs.isFile target then ToolResult.ok path
    else
      let items := fs.rglob target
      -- `relative_to` raises on an item that only shares the text of the workspace
      if items.all fun item => workspace <+: item then
        let lines := (items.filter fs.isFile).map fun item => "/".intercalate (item.drop workspace.length)
        ToolResult.ok (if lines = [] then "(empty)" else "\n".intercalate (lines.take 200))
      else .error .notInSubpath

/-- `path.replace("\\", "/").lstrip("./")`. -/
def normalized (path : String) : List Char :=
  (path.toList.map fun c => if c = '\\' then '/' else c).dropWhile fun c => c = '.' ∨ c = '/'

/-- The directory `dir` or a path in it, as the checks of `publish_file` see it. -/
def isPathIn (dir path : String) : Bool :=
  normalized path = dir.toList ∨ (dir ++ "/").toList <+: normalized path

def isSkillsPath (path : String) : Bool := isPathIn "skills" path

def isBrowserRawPath (path : String) : Bool := isPathIn "raw" path

def isBrowserInternalPath (path : String) : Bool := isPathIn ".browser" path

/-- What `publish_file` stores. -/
structure Published where
  attachmentId : Nat
  filename : String
  workspacePath : String
  content : String
  deriving DecidableEq, Repr

/-- `publish_file`, where the storage may be missing and the database assigns the id. -/
def publishFile (configured : Bool) (fs : Fs) (workspace : Path) (path : String) (filename : Option String)
    (attachmentId : Nat) : Except Raised ToolResult × Option Published :=
  if isSkillsPath path then (.ok (.fail INVALID_ARGUMENTS PUBLISH_SKILLS_REJECT_DETAIL ""), none)
  else if isBrowserRawPath path then (.ok (.fail INVALID_ARGUMENTS PUBLISH_BROWSER_RAW_REJECT_DETAIL ""), none)
  else if isBrowserInternalPath path then
    (.ok (.fail INVALID_ARGUMENTS PUBLISH_BROWSER_INTERNAL_REJECT_DETAIL ""), none)
  else
    match resolveWorkspaceFile workspace path with
    | none => (.ok (pathEscapeError path), none)
    | some target =>
      match fs.node target with
      | some (.file content) =>
        if ¬ configured then (.ok (.fail INTERNAL "object storage not configured" ""), none)
        else
          let uploadName := match filename with
            | some f => if f = "" then target.getLastD "" else f
            | none => target.getLastD ""
          (ToolResult.ok ("published attachment_id=" ++ toString attachmentId ++ " filename=" ++ uploadName),
            some ⟨attachmentId, uploadName, path, content⟩)
      | _ => (.ok (.fail FILE_NOT_FOUND ("publish_file: file not found: " ++ path) ""), none)

/-! ### Turns -/

def MAX_FILE_WRITE_CHARS : Nat := 200000

/-- The attributes of a `ChatToolContext` that the file tools use. -/
structure ToolContext where
  workspace : Path
  fileReadCache : List (String × String)
  publishedArtifacts : List Published
  deriving DecidableEq, Repr

/-- What an agent turn does with files. -/
inductive Call
  | beginTurn
  | readFile (path : String)
  | writeFile (path content : String)
  | listFiles (path : String)
  | publishFile (path : String) (filename : Option String) (attachmentId : Nat)
  deriving DecidableEq, Repr

/-- What a call gives: nothing but the turn for `beginTurn`, else the result of the tool. -/
structure Outcome where
  result : Except Raised (Option ToolResult)
  published : Option Published
  deriving DecidableEq, Repr

/-- The tool `read_file`, with the cache of the turn. -/
def ToolContext.readFile (ctx : ToolContext) (fs : Fs) (path : String) : ToolContext × Except Raised ToolResult :=
  match ctx.fileReadCache.lookup path with
  | some cached => (ctx, ToolResult.ok cached)
  | none =>
    match readWorkspaceFile fs ctx.workspace path with
    | .ok result =>
      (if result.success then { ctx with fileReadCache := (path, result.output) :: ctx.fileReadCache } else ctx,
        .ok result)
    | .error e => (ctx, .error e)

/-- The tool `write_file`. -/
def ToolContext.writeFile (ctx : ToolContext) (fs : Fs) (path content : String) : Fs × Except Raised ToolResult :=
  if MAX_FILE_WRITE_CHARS < content.length then
    (fs, .ok (.fail INVALID_ARGUMENTS ("content too large (" ++ toString content.length ++ " chars)") ""))
  else writeWorkspaceFile fs ctx.workspace path content


/-! ### Texts of paths -/

theorem text_toList (p : Path) : p.text.toList = '/' :: ['/'].intercalate (p.map String.toList) := by
  simp [Path.text, String.toList_intercalate]

/-- A longer path is a longer text. -/
theorem text_append {p : Path} (hp : p ≠ []) (part : String) (q : Path) :
    (p ++ part :: q).text.toList = p.text.toList ++ '/' :: ['/'].intercalate ((part :: q).map String.toList) := by
  have hlist : ∀ l : List (List Char), l ≠ [] → ∀ m : List (List Char), m ≠ [] →
      ['/'].intercalate (l ++ m) = ['/'].intercalate l ++ '/' :: ['/'].intercalate m := by
    intro l hl m hm
    induction l with
    | nil => exact absurd rfl hl
    | cons x l ih =>
      by_cases hnil : l = []
      · subst hnil
        rw [List.singleton_append, List.intercalate_cons_of_ne_nil hm, List.intercalate_singleton]
        simp
      · rw [List.cons_append, List.intercalate_cons_of_ne_nil (by simp [hnil]), ih hnil,
          List.intercalate_cons_of_ne_nil hnil]
        simp
  rw [text_toList, text_toList, List.map_append, hlist _ (by simpa using hp) _ (by simp)]
  rfl

theorem text_mono {p q : Path} (h : p <+: q) : p.text.toList <+: q.text.toList := by
  obtain ⟨r, rfl⟩ := h
  cases r with
  | nil => rw [List.append_nil]
  | cons part r =>
    by_cases hp : p = []
    · subst hp
      rw [text_toList, text_toList]
      exact ⟨_, rfl⟩
    · rw [text_append hp]
      exact List.prefix_append _ _

/-- A path above another one, in the text. -/
def Path.above (q w : Path) : Prop := q.text.toList ++ ['/'] <+: w.text.toList

/-- Of a path in the workspace, what is not in the workspace is above it. -/
theorem inside_or_above {w q t : Path} (hq : q <+: t) (ht : w.inside t) : w.inside q ∨ q = [] ∨ q.above w := by
  obtain ⟨r, rfl⟩ := hq
  cases r with
  | nil => exact .inl (by rwa [List.append_nil] at ht)
  | cons part r =>
    by_cases hnil : q = []
    · exact .inr (.inl hnil)
    · unfold Path.inside at ht
      rw [text_append hnil] at ht
      rcases Nat.lt_or_ge q.text.toList.length w.text.toList.length with hlt | hge
      · have hslash : q.text.toList ++ ['/'] <+:
            q.text.toList ++ '/' :: ['/'].intercalate ((part :: r).map String.toList) :=
          ⟨['/'].intercalate ((part :: r).map String.toList), by simp⟩
        have hle : (q.text.toList ++ ['/']).length ≤ w.text.toList.length := by
          rw [List.length_append, List.length_singleton]
          omega
        exact .inr (.inr (List.prefix_of_prefix_length_le hslash ht hle))
      · exact .inl (List.prefix_of_prefix_length_le ht (List.prefix_append _ _) hge)

/-! ### Entries -/

namespace Fs

variable {fs : Fs} {p q : Path} {n : Node}

theorem node_put : (fs.put p n).node q = if q = [] then some .dir else if q = p then some n else fs.node q := by
  unfold node
  by_cases hq : q = []
  · rw [if_pos hq, if_pos hq]
  · rw [if_neg hq, if_neg hq, if_neg hq, put, List.find?_append, List.find?_filter]
    by_cases hp : q = p
    · subst hp
      have hnone : (fs.entries.find? fun e => decide (decide (e.1 ≠ q) = true ∧ decide (e.1 = q) = true)) = none := by
        simp
      rw [hnone, if_pos rfl]
      simp
    · have hfun : (fun e : Path × Node => decide (decide (e.1 ≠ p) = true ∧ decide (e.1 = q) = true)) =
          fun e => decide (e.1 = q) := by
        funext e
        by_cases he : e.1 = q
        · simp [he, hp]
        · simp [he]
      have hsingle : [(p, n)].find? (fun e => decide (e.1 = q)) = none := by
        simp [Ne.symm hp]
      rw [hfun, hsingle, Option.or_none, if_neg hp]

theorem isFile_put_dir (h : fs.present p = false) : (fs.put p .dir).isFile q = fs.isFile q := by
  unfold isFile
  rw [node_put]
  by_cases hq : q = []
  · subst hq
    simp [node]
  · rw [if_neg hq]
    by_cases hp : q = p
    · subst hp
      rw [if_pos rfl]
      have hnone : fs.node q = none := by simpa [present] using h
      rw [hnone]
      rfl
    · rw [if_neg hp]

theorem isFile_put_of_ne {n : Node} (hq : q ≠ p) : (fs.put p n).isFile q = fs.isFile q := by
  unfold isFile
  rw [node_put, if_neg hq]
  by_cases hnil : q = []
  · rw [if_pos hnil, hnil]
    simp [node]
  · rw [if_neg hnil]

theorem isFile_ensureDir : (fs.ensureDir p).isFile q = fs.isFile q := by
  unfold ensureDir
  split
  · rfl
  · next h => exact isFile_put_dir (by simpa using h)

end Fs

end NexusStudio.Files
