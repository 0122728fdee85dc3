import NexusStudio.Files.FileOps
import NexusStudio.Lib.Unwinding

/-!
# The workspaces of workshop projects and of conversations

The agent turns of a workshop project work in the directory of `workshop_workspace`, those of a conversation in
`conversation_workspace`.

* (machine) two parties whose turns use the file tools on one file system, in any order.
* (isolation) the results of one party do not depend on the other as long as their workspaces are apart.
* (defect) all workshop projects have one workspace.
-/

namespace NexusStudio.Workshop.Isolation

open Concurrent Files

/-! ### Parties -/

/-- Parts of a path that has been resolved. -/
def Proper (p : Path) : Prop :=
  ∀ part ∈ p, part ≠ "" ∧ part ≠ "." ∧ part ≠ ".." ∧ '/' ∉ part.toList ∧ Char.ofNat 0 ∉ part.toList

/-- The settings the file tools read. -/
structure Settings where
  chatWorkspaceRoot : Path
  storageConfigured : Bool
  proper : Proper chatWorkspaceRoot

/-- Whose turns they are. -/
inductive Party
  | project (projectId ownerId : Nat)
  | conversation (userId conversationId : Nat)
  deriving DecidableEq, Repr

variable (c : Settings)

/-- `workshop_workspace` and `conversation_workspace`. -/
def Party.workspace : Party → Path
  | project .. => ["tmp"]
  | conversation userId conversationId => c.chatWorkspaceRoot ++ [toString userId, toString conversationId]

/-- The first lines of a turn: only a conversation makes its workspace. -/
def Party.prepare (party : Party) (fs : Fs) : Except Raised Fs :=
  match party with
  | project .. => .ok fs
  | conversation .. => fs.mkdir (party.workspace c)

/-- A file system, with the tool context of a turn. -/
structure Session where
  fs : Fs
  ctx : ToolContext

def Party.call (party : Party) (a : Call) (s : Session) : Outcome × Session :=
  match a with
  | .beginTurn =>
    match party.prepare c s.fs with
    | .ok fs => (⟨.ok none, none⟩, ⟨fs, ⟨party.workspace c, [], []⟩⟩)
    | .error e => (⟨.error e, none⟩, s)
  | .readFile path =>
    let (ctx, result) := s.ctx.readFile s.fs path
    (⟨result.map some, none⟩, ⟨s.fs, ctx⟩)
  | .writeFile path content =>
    let (fs, result) := s.ctx.writeFile s.fs path content
    (⟨result.map some, none⟩, ⟨fs, s.ctx⟩)
  | .listFiles path => (⟨(listWorkspaceFiles s.fs s.ctx.workspace path).map some, none⟩, s)
  | .publishFile path filename attachmentId =>
    let (result, published) := publishFile c.storageConfigured s.fs s.ctx.workspace path filename attachmentId
    (⟨result.map some, published⟩,
      ⟨s.fs, { s.ctx with publishedArtifacts := s.ctx.publishedArtifacts ++ published.toList }⟩)

/-- Two parties on one file system; each keeps the context of its own turn. -/
structure State where
  fs : Fs
  mine : ToolContext
  theirs : ToolContext

def shared (me other : Party) : Shared State Call Call Outcome where
  mine a s :=
    let (out, t) := me.call c a ⟨s.fs, s.mine⟩
    (out, { s with fs := t.fs, mine := t.ctx })
  theirs b s :=
    let (_, t) := other.call c b ⟨s.fs, s.theirs⟩
    { s with fs := t.fs, theirs := t.ctx }

/-- No turn has begun. -/
def Initial (me other : Party) (s : State) : Prop :=
  s.mine = ⟨me.workspace c, [], []⟩ ∧ s.theirs = ⟨other.workspace c, [], []⟩

/-- The results of the file tools of one party do not depend on what the other does with files. -/
def Isolated (me other : Party) : Prop := (shared c me other).Independent (Initial c me other)

/-- Neither path begins, as text, with the other. -/
def Apart (w w' : Path) : Prop := ¬ w.inside w' ∧ ¬ w'.inside w

/-! ### What a workspace sees -/

/-- The entries in a workspace. -/
def view (w : Path) (fs : Fs) : List (Path × Node) := fs.entries.filter fun e => w.inside e.1

/-- Two file systems look the same from a workspace: in it, and for what is a file above it. -/
structure SameFor (w : Path) (f g : Fs) : Prop where
  view : view w f = view w g
  files : ∀ q : Path, q.above w → f.isFile q = g.isFile q

variable {c} {w w' q t : Path} {f g : Fs} {n : Node}

theorem not_inside_of_above (h : q.above w) : ¬ w.inside q := by
  intro hin
  have hle := (List.IsPrefix.trans h hin).length_le
  simp only [List.length_append, List.length_singleton] at hle
  omega

theorem view_put_of_inside (h : w.inside q) : view w (f.put q n) = (view w f).filter (fun e => e.1 ≠ q) ++ [(q, n)] := by
  have hsingle : [(q, n)].filter (fun e => decide (w.inside e.1)) = [(q, n)] := by simp [h]
  unfold view
  rw [Fs.put, List.filter_append, hsingle, List.filter_filter, List.filter_filter]
  congr 2
  funext e
  exact Bool.and_comm _ _

theorem view_put_of_not_inside (h : ¬ w.inside q) : view w (f.put q n) = view w f := by
  have hsingle : [(q, n)].filter (fun e => decide (w.inside e.1)) = [] := by simp [h]
  unfold view
  rw [Fs.put, List.filter_append, hsingle, List.append_nil, List.filter_filter]
  congr 1
  funext e
  by_cases he : e.1 = q
  · simp [he, h]
  · simp [he]

namespace SameFor

theorem refl (w : Path) (f : Fs) : SameFor w f f := ⟨rfl, fun _ _ => rfl⟩

theorem symm (h : SameFor w f g) : SameFor w g f := ⟨h.view.symm, fun q hq => (h.files q hq).symm⟩

theorem trans {k : Fs} (h : SameFor w f g) (h' : SameFor w g k) : SameFor w f k :=
  ⟨h.view.trans h'.view, fun q hq => (h.files q hq).trans (h'.files q hq)⟩

theorem node (h : SameFor w f g) (hq : w.inside q) : f.node q = g.node q := by
  have hfind : ∀ k : Fs, (k.entries.find? fun e => e.1 = q) = (Isolation.view w k).find? fun e => e.1 = q := by
    intro k
    rw [Isolation.view, List.find?_filter]
    congr 1
    funext e
    by_cases he : e.1 = q
    · simp [he, hq]
    · simp [he]
  unfold Fs.node
  rw [hfind f, hfind g, h.view]

theorem isFile (h : SameFor w f g) (hq : q <+: t) (ht : w.inside t) : f.isFile q = g.isFile q := by
  rcases inside_or_above hq ht with hin | rfl | habove
  · unfold Fs.isFile
    rw [h.node hin]
  · simp [Fs.isFile, Fs.node]
  · exact h.files q habove

/-- A write in the workspace. -/
theorem put (h : SameFor w f g) (hq : w.inside q) (n : Node) : SameFor w (f.put q n) (g.put q n) := by
  refine ⟨?_, fun p hp => ?_⟩
  · rw [view_put_of_inside hq, view_put_of_inside hq, h.view]
  · have hne : p ≠ q := by
      rintro rfl
      exact not_inside_of_above hp hq
    rw [Fs.isFile_put_of_ne hne, Fs.isFile_put_of_ne hne, h.files p hp]

/-- A directory that is made where the workspace does not look. -/
theorem ensureDir_right (hq : ¬ w.inside q) : SameFor w f (f.ensureDir q) := by
  refine ⟨?_, fun p _ => Fs.isFile_ensureDir.symm⟩
  unfold Fs.ensureDir
  split
  · rfl
  · exact (view_put_of_not_inside hq).symm

theorem ensureDir (h : SameFor w f g) (q : Path) : SameFor w (f.ensureDir q) (g.ensureDir q) := by
  by_cases hq : w.inside q
  · unfold Fs.ensureDir Fs.present
    rw [h.node hq]
    split
    · exact h
    · exact h.put hq .dir
  · exact ((ensureDir_right hq).symm.trans h).trans (ensureDir_right hq)

theorem ensureDirs (l : List Path) (h : SameFor w f g) : SameFor w (l.foldl Fs.ensureDir f) (l.foldl Fs.ensureDir g) := by
  induction l generalizing f g with
  | nil => exact h
  | cons q l ih => exact ih (h.ensureDir q)

theorem ensureDirs_right (l : List Path) (hl : ∀ q ∈ l, ¬ w.inside q) : SameFor w f (l.foldl Fs.ensureDir f) := by
  induction l generalizing f with
  | nil => exact refl w f
  | cons q l ih =>
    have hhead : SameFor w f (f.ensureDir q) := ensureDir_right (hl q List.mem_cons_self)
    exact hhead.trans (ih fun p hp => hl p (List.mem_cons_of_mem q hp))

end SameFor

/-- The results of two computations agree, and what they leave looks the same. -/
def SameEnd {α : Type} (w : Path) (x y : Fs × Except Raised α) : Prop := x.2 = y.2 ∧ SameFor w x.1 y.1

theorem SameFor.mkdir (h : SameFor w f g) (hq : q <+: t) (ht : w.inside t) :
    (∃ e, f.mkdir q = .error e ∧ g.mkdir q = .error e) ∨
      ∃ f' g', f.mkdir q = .ok f' ∧ g.mkdir q = .ok g' ∧ SameFor w f' g' := by
  have hfile : f.isFile q = g.isFile q := h.isFile hq ht
  have hany : q.inits.any f.isFile = q.inits.any g.isFile := by
    rw [Bool.eq_iff_iff, List.any_eq_true, List.any_eq_true]
    refine exists_congr fun p => and_congr_right fun hp => ?_
    have hpq : p <+: q := (List.mem_inits p q).1 hp
    rw [h.isFile (hpq.trans hq) ht]
  unfold Fs.mkdir
  rw [← hfile, ← hany]
  split
  · exact .inl ⟨_, rfl, rfl⟩
  · split
    · exact .inl ⟨_, rfl, rfl⟩
    · exact .inr ⟨_, _, rfl, rfl, h.ensureDirs _⟩

theorem inside_of_resolve {path : String} (h : resolveWorkspaceFile w path = some t) : w.inside t := by
  unfold resolveWorkspaceFile at h
  split at h
  · cases h
  · split at h
    · next hin =>
      cases h
      exact hin
    · cases h

theorem SameFor.read (h : SameFor w f g) (path : String) : readWorkspaceFile f w path = readWorkspaceFile g w path := by
  unfold readWorkspaceFile
  cases hr : resolveWorkspaceFile w path with
  | none => rfl
  | some target =>
    simp only
    rw [h.node (inside_of_resolve hr)]

theorem SameFor.rglob (h : SameFor w f g) (ht : w.inside t) : f.rglob t = g.rglob t := by
  have hview : ∀ k : Fs, (k.entries.map Prod.fst).filter (fun q => t <+: q ∧ q ≠ t) =
      ((Isolation.view w k).map Prod.fst).filter fun q => t <+: q ∧ q ≠ t := by
    intro k
    rw [Isolation.view, List.filter_map, List.filter_map, List.filter_filter]
    congr 2
    funext e
    by_cases he : t <+: e.1
    · have hin : w.inside e.1 := ht.trans (text_mono he)
      simp [he, hin]
    · simp [he]
  unfold Fs.rglob
  rw [hview f, hview g, h.view]

theorem SameFor.list (h : SameFor w f g) (path : String) : listWorkspaceFiles f w path = listWorkspaceFiles g w path := by
  unfold listWorkspaceFiles
  cases hr : resolveWorkspaceFile w path with
  | none => rfl
  | some target =>
    have ht := inside_of_resolve hr
    have hfiles : (g.rglob target).filter f.isFile = (g.rglob target).filter g.isFile := by
      refine List.filter_congr fun q hq => ?_
      have hmem := (List.mem_insertionSort _).1 hq
      have hpre : target <+: q := (of_decide_eq_true (List.mem_filter.1 hmem).2).1
      exact congrArg (Option.any Node.isFile) (h.node (ht.trans (text_mono hpre)))
    simp only [Fs.present, h.node ht, h.isFile List.prefix_rfl ht, h.rglob ht, hfiles]

theorem SameFor.publish (h : SameFor w f g) (configured : Bool) (path : String) (filename : Option String) (id : Nat) :
    publishFile configured f w path filename id = publishFile configured g w path filename id := by
  unfold publishFile
  cases hr : resolveWorkspaceFile w path with
  | none => rfl
  | some target =>
    simp only
    rw [h.node (inside_of_resolve hr)]

theorem SameFor.write (h : SameFor w f g) (path content : String) :
    SameEnd w (writeWorkspaceFile f w path content) (writeWorkspaceFile g w path content) := by
  unfold writeWorkspaceFile
  split
  · exact ⟨rfl, h⟩
  · cases hr : resolveWorkspaceFile w path with
    | none => exact ⟨rfl, h⟩
    | some target =>
      have ht := inside_of_resolve hr
      simp only
      rcases h.mkdir (List.dropLast_prefix target) ht with ⟨e, hf, hg⟩ | ⟨f', g', hf, hg, h'⟩
      · rw [hf, hg]
        exact ⟨rfl, h⟩
      · rw [hf, hg]
        have hnode : f'.node target = g'.node target := h'.node ht
        by_cases hdir : g'.node target = some .dir
        · have hf' : f'.writeText target content = .error .isADirectory := if_pos (hnode.trans hdir)
          have hg' : g'.writeText target content = .error .isADirectory := if_pos hdir
          simp only [hf', hg']
          exact ⟨rfl, h'⟩
        · have hf' : f'.writeText target content = .ok (f'.put target (.file content)) :=
            if_neg fun he => hdir (hnode.symm.trans he)
          have hg' : g'.writeText target content = .ok (g'.put target (.file content)) := if_neg hdir
          simp only [hf', hg']
          exact ⟨rfl, h'.put ht _⟩

/-- What is in the other workspace, or above something in it, is not in a workspace that is apart from it. -/
theorem Apart.not_inside (hA : Apart w w') (hq : q <+: t) (ht : w'.inside t) : ¬ w.inside q := by
  intro hin
  have hwt : w.inside t := List.IsPrefix.trans hin (text_mono hq)
  rcases List.prefix_or_prefix_of_prefix hwt ht with h | h
  · exact hA.1 h
  · exact hA.2 h

theorem Apart.mkdir (hA : Apart w w') (hq : q <+: t) (ht : w'.inside t) (h : f.mkdir q = .ok g) : SameFor w f g := by
  unfold Fs.mkdir at h
  split at h
  · cases h
  · split at h
    · cases h
    · cases h
      refine SameFor.ensureDirs_right _ fun p hp => ?_
      exact hA.not_inside (((List.mem_inits p q).1 hp).trans hq) ht

/-- A write of the other party. -/
theorem Apart.write (hA : Apart w w') (path content : String) : SameFor w f (writeWorkspaceFile f w' path content).1 := by
  unfold writeWorkspaceFile
  split
  · exact .refl w f
  · cases hr : resolveWorkspaceFile w' path with
    | none => exact .refl w f
    | some target =>
      have ht := inside_of_resolve hr
      have hdrop := List.dropLast_prefix target
      simp only
      cases hm : f.mkdir target.dropLast with
      | error e => exact .refl w f
      | ok g =>
        have hmk : SameFor w f g := hA.mkdir hdrop ht hm
        by_cases hdir : g.node target = some .dir
        · have hw : g.writeText target content = .error .isADirectory := if_pos hdir
          simp only [hw]
          exact hmk
        · have hw : g.writeText target content = .ok (g.put target (.file content)) := if_neg hdir
          simp only [hw]
          refine hmk.trans ⟨(view_put_of_not_inside (hA.not_inside List.prefix_rfl ht)).symm, fun q hq => ?_⟩
          have hne : q ≠ target := by
            rintro rfl
            exact hA.2 (List.IsPrefix.trans ht ((List.prefix_append _ _).trans hq))
          rw [Fs.isFile_put_of_ne hne]

/-! ### Isolation -/

/-- Two states that look the same to the first party. -/
structure Alike (c : Settings) (me other : Party) (s t : State) : Prop where
  fs : SameFor (me.workspace c) s.fs t.fs
  ctx : s.mine = t.mine
  mine : s.mine.workspace = me.workspace c
  theirs : s.theirs.workspace = other.workspace c

variable {me other party : Party} {s k : Session}

theorem readFile_workspace (ctx : ToolContext) (fs : Fs) (path : String) :
    (ctx.readFile fs path).1.workspace = ctx.workspace := by
  unfold ToolContext.readFile
  split
  · rfl
  · split
    · split <;> rfl
    · rfl

/-- A turn stays in the workspace of its party. -/
theorem call_workspace (a : Call) (hs : s.ctx.workspace = party.workspace c) :
    (party.call c a s).2.ctx.workspace = party.workspace c := by
  cases a with
  | beginTurn =>
    unfold Party.call
    simp only
    split
    · rfl
    · exact hs
  | readFile path => exact (readFile_workspace s.ctx s.fs path).trans hs
  | writeFile | listFiles | publishFile => exact hs

/-- A call of the other party. -/
theorem Apart.call (hA : Apart w (party.workspace c)) (a : Call) (hs : s.ctx.workspace = party.workspace c) :
    SameFor w s.fs (party.call c a s).2.fs := by
  cases a with
  | beginTurn =>
    unfold Party.call
    simp only
    cases hp : party.prepare c s.fs with
    | error e => exact .refl w s.fs
    | ok fs =>
      cases party with
      | project =>
        cases hp
        exact .refl w s.fs
      | conversation => exact hA.mkdir List.prefix_rfl List.prefix_rfl hp
  | writeFile path content =>
    show SameFor w s.fs (s.ctx.writeFile s.fs path content).1
    unfold ToolContext.writeFile
    split
    · exact .refl w s.fs
    · rw [hs]
      exact hA.write path content
  | readFile | listFiles | publishFile => exact .refl w s.fs

/-- A call of the party itself. -/
theorem SameFor.call (h : SameFor (party.workspace c) s.fs k.fs) (hctx : s.ctx = k.ctx)
    (hs : s.ctx.workspace = party.workspace c) (a : Call) :
    (party.call c a s).1 = (party.call c a k).1 ∧ (party.call c a s).2.ctx = (party.call c a k).2.ctx ∧
      SameFor (party.workspace c) (party.call c a s).2.fs (party.call c a k).2.fs := by
  obtain ⟨f, ctx⟩ := s
  obtain ⟨g, ctx'⟩ := k
  cases hctx
  cases a with
  | beginTurn =>
    cases party with
    | project => exact ⟨rfl, rfl, h⟩
    | conversation userId conversationId =>
      unfold Party.call Party.prepare
      rcases h.mkdir List.prefix_rfl List.prefix_rfl with ⟨e, hf, hg⟩ | ⟨f', g', hf, hg, h'⟩
      · simp only [hf, hg]
        exact ⟨trivial, trivial, h⟩
      · simp only [hf, hg]
        exact ⟨trivial, trivial, h'⟩
  | readFile path =>
    have hread : ctx.readFile f path = ctx.readFile g path := by
      unfold ToolContext.readFile
      rw [hs, h.read path]
    simp only [Party.call, hread]
    exact ⟨trivial, trivial, h⟩
  | writeFile path content =>
    have hwrite : SameEnd (party.workspace c) (ctx.writeFile f path content) (ctx.writeFile g path content) := by
      unfold ToolContext.writeFile
      split
      · exact ⟨rfl, h⟩
      · rw [hs]
        exact h.write path content
    refine ⟨?_, rfl, hwrite.2⟩
    simp only [Party.call, hwrite.1]
  | listFiles path =>
    have hlist : listWorkspaceFiles f ctx.workspace path = listWorkspaceFiles g ctx.workspace path := by
      rw [hs]
      exact h.list path
    simp only [Party.call, hlist]
    exact ⟨trivial, trivial, h⟩
  | publishFile path filename id =>
    have hpublish : publishFile c.storageConfigured f ctx.workspace path filename id =
        publishFile c.storageConfigured g ctx.workspace path filename id := by
      rw [hs]
      exact h.publish _ path filename id
    simp only [Party.call, hpublish]
    exact ⟨trivial, trivial, h⟩

theorem unwinding (hA : Apart (me.workspace c) (other.workspace c)) :
    (shared c me other).Unwinding (Initial c me other) (Alike c me other) where
  init s hs := ⟨.refl _ s.fs, rfl, by rw [hs.1], by rw [hs.2]⟩
  respects := by
    intro s t h a
    obtain ⟨hout, hctx, hfs⟩ := SameFor.call (s := ⟨s.fs, s.mine⟩) (k := ⟨t.fs, t.mine⟩) h.fs h.ctx h.mine a
    exact ⟨hout, hfs, hctx, call_workspace a h.mine, h.theirs⟩
  absorbs := by
    intro s t h b
    have hfs := hA.call (s := ⟨s.fs, s.theirs⟩) b h.theirs
    exact ⟨hfs.symm.trans h.fs, h.ctx, h.mine, call_workspace b h.theirs⟩

/-! ### A file in both workspaces -/

theorem mem_text {p : Path} {x : Char} (h : x ∈ p.text.toList) : x = '/' ∨ ∃ part ∈ p, x ∈ part.toList := by
  rw [text_toList, List.mem_cons] at h
  rcases h with rfl | h
  · exact .inl rfl
  · induction p with
    | nil => cases h
    | cons part p ih =>
      by_cases hp : p = []
      · subst hp
        rw [List.map_singleton, List.intercalate_singleton] at h
        exact .inr ⟨part, List.mem_singleton_self part, h⟩
      · rw [List.map_cons, List.intercalate_cons_of_ne_nil (by simpa using hp), List.mem_append,
          List.mem_append, List.mem_singleton] at h
        rcases h with (h | rfl) | h
        · exact .inr ⟨part, List.mem_cons_self, h⟩
        · exact .inl rfl
        · exact (ih h).imp_right fun ⟨q, hq, hx⟩ => ⟨q, List.mem_cons_of_mem part hq, hx⟩

theorem parts_text {p : Path} (hp : Proper p) (hne : p ≠ []) : parts p.text = "" :: p := by
  have hslash : ∀ l ∈ [] :: p.map String.toList, '/' ∉ l := by
    intro l hl
    rcases List.mem_cons.1 hl with rfl | hl
    · exact List.not_mem_nil
    · obtain ⟨part, hpart, rfl⟩ := List.mem_map.1 hl
      exact (hp part hpart).2.2.2.1
  have htext : p.text.toList = ['/'].intercalate ([] :: p.map String.toList) := by
    rw [text_toList, List.intercalate_cons_of_ne_nil (by simpa using hne)]
    rfl
  rw [parts, htext, List.splitOn_intercalate '/' hslash (by simp)]
  simp [Function.comp_def]

theorem enter_proper (p q : Path) (hq : Proper q) : q.foldl Path.enter p = p ++ q := by
  induction q generalizing p with
  | nil => simp
  | cons part q ih =>
    obtain ⟨hempty, hdot, hdots, -⟩ := hq part List.mem_cons_self
    have hstep : Path.enter p part = p ++ [part] := by simp [Path.enter, hempty, hdot, hdots]
    rw [List.foldl_cons, hstep, ih _ fun r hr => hq r (List.mem_cons_of_mem part hr), List.append_assoc]
    rfl

/-- The text of a path in the workspace resolves to it. -/
theorem resolve_text {p : Path} (hp : Proper p) (hne : p ≠ []) (hin : w.inside p) :
    resolveWorkspaceFile w p.text = some p := by
  have hnull : Char.ofNat 0 ∉ p.text.toList := by
    intro h
    rcases mem_text h with h | ⟨part, hpart, h⟩
    · cases h
    · exact (hp part hpart).2.2.2.2 h
  have hhead : p.text.toList.head? = some '/' := by rw [text_toList]; rfl
  have hjoin : join w p.text = p := by
    rw [join, parts_text hp hne, if_pos hhead, List.foldl_cons]
    exact enter_proper [] p hp
  rw [resolveWorkspaceFile, if_neg hnull, hjoin, if_pos hin]

theorem proper_toString (n : Nat) : toString n ≠ "" ∧ toString n ≠ "." ∧ toString n ≠ ".." ∧ '/' ∉ (toString n).toList ∧
    Char.ofNat 0 ∉ (toString n).toList := by
  have hlist : (toString n).toList = Nat.toDigits 10 n := Nat.toList_repr
  have hdigit : ∀ x ∈ (toString n).toList, x.isDigit = true := by
    intro x hx
    rw [hlist] at hx
    exact Nat.isDigit_of_mem_toDigits (by decide) (by decide) hx
  have hdot : ∀ s : String, '.' ∈ s.toList → toString n ≠ s := by
    rintro s hs rfl
    exact absurd (hdigit '.' hs) (by decide)
  refine ⟨?_, hdot "." (by decide), hdot ".." (by decide), fun h => ?_, fun h => ?_⟩
  · intro he
    have hnil : Nat.toDigits 10 n = [] := by rw [← hlist, he]; rfl
    exact Nat.toDigits_ne_nil hnil
  · exact absurd (hdigit _ h) (by decide)
  · exact absurd (hdigit _ h) (by decide)

theorem proper_workspace (party : Party) : Proper (party.workspace c) := by
  intro part hpart
  cases party with
  | project =>
    rw [Party.workspace, List.mem_singleton] at hpart
    subst hpart
    decide
  | conversation userId conversationId =>
    simp only [Party.workspace, List.mem_append, List.mem_cons, List.not_mem_nil, or_false] at hpart
    rcases hpart with h | rfl | rfl
    · exact c.proper part h
    · exact proper_toString userId
    · exact proper_toString conversationId

theorem node_ensureDirs {l : List Path} (hq : q ∉ l) : (l.foldl Fs.ensureDir f).node q = f.node q := by
  induction l generalizing f with
  | nil => rfl
  | cons p l ih =>
    have hne : q ≠ p := List.ne_of_not_mem_cons hq
    have hl : q ∉ l := List.not_mem_of_not_mem_cons hq
    rw [List.foldl_cons, ih hl]
    unfold Fs.ensureDir
    split
    · rfl
    · rw [Fs.node_put, if_neg hne]
      by_cases hnil : q = []
      · subst hnil
        simp [Fs.node]
      · rw [if_neg hnil]

theorem isFile_empty : (Fs.mk []).isFile q = false := by
  unfold Fs.isFile Fs.node
  split <;> rfl

theorem proper_leak {d : Path} (hd : Proper d) : Proper (d ++ ["leak.txt"]) := by
  intro part hpart
  rcases List.mem_append.1 hpart with h | h
  · exact hd part h
  · rw [List.mem_singleton] at h
    subst h
    decide

/-- On a system without files a party writes any text file in its workspace. -/
theorem write_empty {d : Path} (hd : Proper d) (hin : w.inside (d ++ ["leak.txt"])) :
    (writeWorkspaceFile ⟨[]⟩ w (d ++ ["leak.txt"]).text "secret").1.node (d ++ ["leak.txt"]) =
      some (.file "secret") := by
  have hp := proper_leak hd
  have hne : d ++ ["leak.txt"] ≠ [] := by simp
  have hname : name (d ++ ["leak.txt"]).text = "leak.txt" := by
    rw [name, parts_text hp hne, List.filter_cons_of_neg (by decide), List.filter_append]
    simp
  have hsuffix : suffix "leak.txt" ∈ ALLOWED_WRITE_SUFFIXES := by decide
  have hmkdir : (Fs.mk []).mkdir d = .ok (d.inits.foldl Fs.ensureDir ⟨[]⟩) := by
    have hany : d.inits.any (Fs.mk []).isFile = false := List.any_eq_false.2 fun p _ => by rw [isFile_empty]; decide
    rw [Fs.mkdir, isFile_empty, hany]
    rfl
  have hnode : (d.inits.foldl Fs.ensureDir ⟨[]⟩).node (d ++ ["leak.txt"]) = none := by
    have hmem : d ++ ["leak.txt"] ∉ d.inits := by
      rw [List.mem_inits]
      intro h
      have hle := h.length_le
      rw [List.length_append, List.length_singleton] at hle
      omega
    rw [node_ensureDirs hmem, Fs.node, if_neg hne]
    rfl
  have hwrite : (d.inits.foldl Fs.ensureDir ⟨[]⟩).writeText (d ++ ["leak.txt"]) "secret" =
      .ok ((d.inits.foldl Fs.ensureDir ⟨[]⟩).put (d ++ ["leak.txt"]) (.file "secret")) := by
    rw [Fs.writeText, hnode]
    rfl
  have hdrop : (d ++ ["leak.txt"]).dropLast = d := List.dropLast_concat
  unfold writeWorkspaceFile
  rw [hname, if_neg (not_not.2 hsuffix), resolve_text hp hne hin]
  simp only [hdrop, hmkdir, hwrite]
  rw [Fs.node_put, if_neg hne, if_pos rfl]

theorem read_leak {d : Path} (hd : Proper d) (hin : w.inside (d ++ ["leak.txt"])) :
    readWorkspaceFile f w (d ++ ["leak.txt"]).text = match f.node (d ++ ["leak.txt"]) with
      | none => .ok (.fail FILE_NOT_FOUND ("file not found: " ++ (d ++ ["leak.txt"]).text)
          ("file not found: " ++ (d ++ ["leak.txt"]).text))
      | some .dir => .error .isADirectory
      | some (.file content) =>
        .ok (truncate 20000 (String.ofList (universalNewlines content.toList))) >>= ToolResult.ok := by
  have hsuffix : suffix ((d ++ ["leak.txt"]).getLastD "") ∉ READ_BINARY_SUFFIXES := by
    have hlast : (d ++ ["leak.txt"]).getLastD "" = "leak.txt" := by simp
    rw [hlast]
    decide
  rw [readWorkspaceFile, resolve_text (proper_leak hd) (by simp) hin]
  simp only [if_neg hsuffix]
  cases f.node (d ++ ["leak.txt"]) with
  | none => rfl
  | some n => cases n <;> rfl

/-- A file that both parties can name carries what one writes into the results of the other. -/
theorem not_isolated_of_inside {me other : Party} {d : Path} (hd : Proper d)
    (hme : (me.workspace c).inside (d ++ ["leak.txt"])) (hother : (other.workspace c).inside (d ++ ["leak.txt"])) :
    ¬ Isolated c me other := by
  intro h
  let s : State := ⟨⟨[]⟩, ⟨me.workspace c, [], []⟩, ⟨other.workspace c, [], []⟩⟩
  let path := (d ++ ["leak.txt"]).text
  have hrun := h s ⟨rfl, rfl⟩ [.inr (.writeFile path "secret"), .inl (.readFile path)] [.inl (.readFile path)] rfl
  have hempty : (Fs.mk []).node (d ++ ["leak.txt"]) = none := by rw [Fs.node, if_neg (by simp)]; rfl
  have hbefore : readWorkspaceFile ⟨[]⟩ (me.workspace c) path =
      .ok (.fail FILE_NOT_FOUND ("file not found: " ++ path) ("file not found: " ++ path)) := by
    rw [read_leak hd hme, hempty]
  have hsecret : (Except.ok (truncate 20000 (String.ofList (universalNewlines "secret".toList))) >>= ToolResult.ok) =
      .ok ⟨true, "secret", none, none⟩ := by decide
  have hafter : readWorkspaceFile (writeWorkspaceFile ⟨[]⟩ (other.workspace c) path "secret").1 (me.workspace c) path =
      .ok ⟨true, "secret", none, none⟩ := by
    rw [read_leak hd hme, write_empty hd hother]
    exact hsecret
  have hlong : ¬ MAX_FILE_WRITE_CHARS < "secret".length := by decide
  simp only [Shared.results, shared, Party.call, ToolContext.writeFile, ToolContext.readFile, if_neg hlong, s,
    List.lookup_nil, hbefore, hafter, Except.map, List.cons.injEq, Outcome.mk.injEq, Except.ok.injEq] at hrun
  obtain ⟨⟨hresult, -⟩, -⟩ := hrun
  cases hresult

/-- The results of one party are independent of the other exactly when their workspaces are apart. -/
theorem isolated_iff_apart (me other : Party) :
    Isolated c me other ↔ Apart (me.workspace c) (other.workspace c) := by
  refine ⟨fun h => ⟨fun hin => ?_, fun hin => ?_⟩, fun hA => (unwinding hA).independent⟩
  · exact not_isolated_of_inside (proper_workspace other) (hin.trans (text_mono (List.prefix_append _ _)))
      (text_mono (List.prefix_append _ _)) h
  · exact not_isolated_of_inside (proper_workspace me) (text_mono (List.prefix_append _ _))
      (hin.trans (text_mono (List.prefix_append _ _))) h

/-- Two workshop projects are never apart. -/
theorem not_apart_projects (p o p' o' : Nat) :
    ¬ Apart ((Party.project p o).workspace c) ((Party.project p' o').workspace c) :=
  fun h => h.1 List.prefix_rfl

/-- A conversation is apart from the projects when its workspace is outside of `/tmp`. -/
theorem apart_conversation_iff (p o userId conversationId : Nat) :
    Apart ((Party.project p o).workspace c) ((Party.conversation userId conversationId).workspace c) ↔
      ¬ "/tmp".toList <+: ((Party.conversation userId conversationId).workspace c).text.toList := by
  have htmp : (Path.text ["tmp"]).toList = "/tmp".toList := by decide
  have hdeep : ¬ ((Party.conversation userId conversationId).workspace c).inside ["tmp"] := by
    intro h
    have hsplit : (Party.conversation userId conversationId).workspace c =
        (c.chatWorkspaceRoot ++ [toString userId]) ++ [toString conversationId] := by
      simp [Party.workspace]
    have hcount := h.sublist.count_le '/'
    rw [htmp, hsplit, text_append (by simp), text_toList] at hcount
    simp [List.count_append] at hcount
  constructor
  · intro h hin
    exact h.1 (by rw [Path.inside]; exact htmp ▸ hin)
  · intro h
    exact ⟨fun hin => h (htmp ▸ hin), hdeep⟩

/-- The workspaces of a deployment. -/
def deployment : Settings := ⟨["var", "lib", "nexus-studio", "chat-workspaces"], true, by unfold Proper; decide⟩

/-- The expert of one owner's project writes a file, and the expert of another owner's project reads it. -/
theorem not_isolated : ¬ Isolated deployment (.project 2 20) (.project 1 10) := by
  intro h
  have hrun := h ⟨⟨[(["tmp"], .dir)]⟩, ⟨["tmp"], [], []⟩, ⟨["tmp"], [], []⟩⟩ ⟨rfl, rfl⟩
    [.inr .beginTurn, .inr (.writeFile "plan.md" "secret"), .inl .beginTurn, .inl (.readFile "plan.md")]
    [.inr .beginTurn, .inl .beginTurn, .inl (.readFile "plan.md")] rfl
  revert hrun
  decide

end NexusStudio.Workshop.Isolation
