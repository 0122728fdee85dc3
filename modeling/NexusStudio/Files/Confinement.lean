import NexusStudio.Workshop.Isolation

/-!
# What the file tools of a conversation can reach

`resolve_workspace_file` compares the texts of two paths, not their parts.

* (climbs) how far a path climbs above the directory it starts in, and what it descends to.
* (texts) a path begins, as text, with the workspace exactly when it goes on from the parent of the workspace with a
  name that begins with the name of the workspace.
* (result) `confined_iff`: the tools stay in the workspace unless the path strays to a directory beside it.
-/

namespace NexusStudio.Files

open Workshop.Isolation

/-! ### Climbs -/

/-- One more part: how many directories are left, and the names that are entered then. -/
def climbStep (k : Nat × Path) (part : String) : Nat × Path :=
  if part = "" ∨ part = "." then k
  else if part = ".." then if k.2 = [] then (k.1 + 1, []) else (k.1, k.2.dropLast)
  else (k.1, k.2 ++ [part])

def climb (path : String) : Nat × Path := (parts path).foldl climbStep (0, [])

/-- An absolute path starts at the root. -/
def base (w : Path) (path : String) : Path := if path.toList.head? = some '/' then [] else w

/-- Where the path leads, from the directory `w`. -/
def destination (w : Path) (path : String) : Path :=
  (base w path).take ((base w path).length - (climb path).1) ++ (climb path).2

theorem enter_climbStep (b : Path) (k : Nat × Path) (part : String) :
    Path.enter (b.take (b.length - k.1) ++ k.2) part =
      b.take (b.length - (climbStep k part).1) ++ (climbStep k part).2 := by
  obtain ⟨u, d⟩ := k
  unfold Path.enter climbStep
  split
  · rfl
  · split
    · by_cases hd : d = []
      · subst hd
        have hmin : min (min (b.length - u) b.length - 1) (b.length - u) = b.length - (u + 1) := by omega
        simp only [List.append_nil, if_true]
        rw [List.dropLast_eq_take, List.length_take, List.take_take, hmin]
      · rw [if_neg hd, List.dropLast_append_of_ne_nil hd]
    · rw [List.append_assoc]

theorem join_eq_destination (w : Path) (path : String) : join w path = destination w path := by
  have hfold : ∀ (l : List String) (k : Nat × Path) (b : Path),
      l.foldl Path.enter (b.take (b.length - k.1) ++ k.2) =
        b.take (b.length - (l.foldl climbStep k).1) ++ (l.foldl climbStep k).2 := by
    intro l
    induction l with
    | nil => intro k b; rfl
    | cons part l ih =>
      intro k b
      rw [List.foldl_cons, List.foldl_cons, enter_climbStep, ih]
  have h := hfold (parts path) (0, []) (base w path)
  rw [Nat.sub_zero, List.take_length, List.append_nil] at h
  exact h

/-! ### Texts -/

/-- The text of a path that is not the root. -/
def Path.slashed (p : Path) : List Char := p.flatMap fun part => '/' :: part.toList

theorem text_slashed {p : Path} (hp : p ≠ []) : p.text.toList = p.slashed := by
  rw [text_toList]
  induction p with
  | nil => exact absurd rfl hp
  | cons part p ih =>
    by_cases hnil : p = []
    · subst hnil
      simp [Path.slashed]
    · rw [List.map_cons, List.intercalate_cons_of_ne_nil (by simpa using hnil)]
      have htail := ih hnil
      simp only [Path.slashed, List.flatMap_cons] at htail ⊢
      rw [← htail]
      simp

/-- Two texts agree beyond a slash when they agree up to it. -/
theorem prefix_slash_iff {a b r s : List Char} (ha : '/' ∉ a) (hb : '/' ∉ b) (hs : ∀ x ∈ s.head?, x = '/') :
    a ++ '/' :: r <+: b ++ s ↔ a = b ∧ '/' :: r <+: s := by
  induction a generalizing b with
  | nil =>
    cases b with
    | nil => simp
    | cons y b =>
      have hy : '/' ≠ y := fun h => hb (h ▸ List.mem_cons_self)
      simp [List.cons_prefix_cons, hy]
  | cons x a ih =>
    have hx : x ≠ '/' := fun h => ha (h ▸ List.mem_cons_self)
    cases b with
    | nil =>
      constructor
      · intro h
        cases s with
        | nil => simp at h
        | cons z s =>
          have hz : z = '/' := hs z rfl
          simp [List.cons_prefix_cons, hz, hx] at h
      · rintro ⟨h, -⟩
        cases h
    | cons y b =>
      have hcut := ih (fun h => ha (List.mem_cons_of_mem x h)) (b := b) fun h => hb (List.mem_cons_of_mem y h)
      simp only [List.cons_append, List.cons_prefix_cons, hcut, List.cons.injEq, and_assoc]

theorem slashed_append (p q : Path) : (p ++ q).slashed = p.slashed ++ q.slashed := List.flatMap_append

theorem head_slashed (p : Path) : ∀ x ∈ p.slashed.head?, x = '/' := by
  cases p with
  | nil => nofun
  | cons part p =>
    intro x hx
    exact (Option.some.inj hx).symm

/-- As text, a path begins with another one when it follows it up to a name that begins with the last one. -/
theorem slashed_prefix_iff {d t : Path} {x : String} (hd : ∀ part ∈ d, '/' ∉ part.toList) (hx : '/' ∉ x.toList)
    (ht : ∀ part ∈ t, '/' ∉ part.toList) :
    (d ++ [x]).slashed <+: t.slashed ↔ ∃ name rest, t = d ++ name :: rest ∧ x.toList <+: name.toList := by
  induction d generalizing t with
  | nil =>
    cases t with
    | nil => simp [Path.slashed]
    | cons name rest =>
      have hname : '/' ∉ name.toList := ht name List.mem_cons_self
      have hcut : x.toList <+: name.toList ++ Path.slashed rest ↔ x.toList <+: name.toList := by
        constructor
        · intro h
          rcases Nat.lt_or_ge name.toList.length x.toList.length with hlt | hge
          · obtain ⟨z, hz⟩ := List.prefix_of_prefix_length_le (List.prefix_append _ _) h hlt.le
            rw [← hz, List.prefix_append_right_inj] at h
            cases z with
            | nil =>
              rw [List.append_nil] at hz
              rw [hz] at hlt
              exact absurd hlt (lt_irrefl _)
            | cons c z =>
              -- the name ends before `x` does, at a slash
              have hc : c = '/' := by
                obtain ⟨r, hr⟩ := h
                exact head_slashed rest c (by rw [← hr]; rfl)
              rw [← hz, hc] at hx
              exact absurd (List.mem_append_right _ List.mem_cons_self) hx
          · exact List.prefix_of_prefix_length_le h (List.prefix_append _ _) hge
        · exact fun h => h.trans (List.prefix_append _ _)
      simp only [Path.slashed, List.nil_append, List.flatMap_cons, List.flatMap_nil, List.append_nil,
        List.cons_append, List.cons_prefix_cons, true_and] at hcut ⊢
      rw [hcut]
      constructor
      · exact fun h => ⟨name, rest, rfl, h⟩
      · rintro ⟨name', rest', heq, h⟩
        cases heq
        exact h
  | cons y d ih =>
    cases t with
    | nil => simp [Path.slashed]
    | cons name rest =>
      have hy : '/' ∉ y.toList := hd y List.mem_cons_self
      have hname : '/' ∉ name.toList := ht name List.mem_cons_self
      have ih := ih (t := rest) (fun part hp => hd part (List.mem_cons_of_mem y hp))
        fun part hp => ht part (List.mem_cons_of_mem name hp)
      obtain ⟨r, hr⟩ : ∃ r, Path.slashed (d ++ [x]) = '/' :: r := by
        cases d with
        | nil => exact ⟨_, rfl⟩
        | cons z d => exact ⟨_, rfl⟩
      have hcut := prefix_slash_iff (r := r) hy hname (head_slashed rest)
      simp only [Path.slashed, List.cons_append, List.flatMap_cons, List.cons_prefix_cons, true_and] at hcut ih hr ⊢
      rw [hr, hcut, ← hr, ih]
      constructor
      · rintro ⟨hyn, name', rest', rfl, h⟩
        exact ⟨name', rest', by rw [String.toList_inj.1 hyn], h⟩
      · rintro ⟨name', rest', heq, h⟩
        cases heq
        exact ⟨rfl, name', rest', rfl, h⟩

/-- The workspace `d / x` accepts what goes on from `d` with a name that begins with `x`. -/
theorem inside_iff {d t : Path} {x : String} (hw : Proper (d ++ [x])) (ht : ∀ part ∈ t, '/' ∉ part.toList) :
    Path.inside (d ++ [x]) t ↔ ∃ name rest, t = d ++ name :: rest ∧ x.toList <+: name.toList := by
  have hx := hw x (List.mem_append_right _ (List.mem_singleton_self x))
  have hd : ∀ part ∈ d, '/' ∉ part.toList := fun part hp => (hw part (List.mem_append_left _ hp)).2.2.2.1
  unfold Path.inside
  rw [text_slashed (by simp), ← slashed_prefix_iff hd hx.2.2.2.1 ht]
  by_cases hnil : t = []
  · subst hnil
    have hroot : (Path.text []).toList = ['/'] := by decide
    rw [hroot]
    constructor
    · intro h
      have hle := h.length_le
      have hpos : 0 < x.toList.length := List.length_pos_iff.2 fun h => hx.1 (String.toList_inj.1 h)
      rw [slashed_append, List.length_append] at hle
      simp only [Path.slashed, List.flatMap_cons, List.flatMap_nil, List.append_nil, List.length_cons,
        List.length_nil] at hle
      omega
    · intro h
      have hle := h.length_le
      rw [slashed_append, List.length_append] at hle
      simp [Path.slashed] at hle
  · rw [text_slashed hnil]

/-! ### Parts -/

theorem not_mem_of_mem_splitOn {a : Char} (l : List Char) : ∀ q ∈ l.splitOn a, a ∉ q := by
  induction l with
  | nil => simp [List.splitOn_nil]
  | cons x l ih =>
    rw [List.splitOn_cons_eq_if_modifyHead]
    intro q hq
    split at hq
    · rcases List.mem_cons.1 hq with rfl | hq
      · exact List.not_mem_nil
      · exact ih q hq
    · rename_i hx
      cases hl : l.splitOn a with
      | nil => exact absurd hl (List.splitOn_ne_nil a l)
      | cons y m =>
        rw [hl] at hq ih
        rcases List.mem_cons.1 hq with rfl | hq
        · have hxa : a ≠ x := fun h => hx (by simp [h])
          have hy := ih y List.mem_cons_self
          simp [hxa, hy]
        · exact ih q (List.mem_cons_of_mem y hq)

theorem slash_not_mem_join {w : Path} (hw : ∀ part ∈ w, '/' ∉ part.toList) (path : String) :
    ∀ part ∈ join w path, '/' ∉ part.toList := by
  have hfold : ∀ (l : List String) (p : Path), (∀ part ∈ l, '/' ∉ part.toList) → (∀ part ∈ p, '/' ∉ part.toList) →
      ∀ part ∈ l.foldl Path.enter p, '/' ∉ part.toList := by
    intro l
    induction l with
    | nil => exact fun p _ hp => hp
    | cons y l ih =>
      intro p hl hp
      refine ih (Path.enter p y) (fun part h => hl part (List.mem_cons_of_mem y h)) fun part h => ?_
      unfold Path.enter at h
      split at h
      · exact hp part h
      · split at h
        · exact hp part (List.mem_of_mem_dropLast h)
        · rcases List.mem_append.1 h with h | h
          · exact hp part h
          · rw [List.mem_singleton.1 h]
            exact hl y List.mem_cons_self
  refine hfold (parts path) _ (fun part hp => ?_) fun part hp => ?_
  · obtain ⟨q, hq, rfl⟩ := List.mem_map.1 hp
    rw [String.toList_ofList]
    exact not_mem_of_mem_splitOn _ q hq
  · split at hp
    · cases hp
    · exact hw part hp

/-! ### Confinement -/

/-- The entries of the directory `w`, by their parts. -/
def within (w : Path) (fs : Fs) : List (Path × Node) := fs.entries.filter fun e => w <+: e.1

/-- The path cannot make a file tool reach anything outside of the workspace `w`. -/
structure Confined (w : Path) (path : String) : Prop where
  target : ∀ t, resolveWorkspaceFile w path = some t → w <+: t
  read : ∀ f g, within w f = within w g → readWorkspaceFile f w path = readWorkspaceFile g w path
  list : ∀ f g, within w f = within w g → listWorkspaceFiles f w path = listWorkspaceFiles g w path
  publish : ∀ f g, within w f = within w g → ∀ configured filename id,
    publishFile configured f w path filename id = publishFile configured g w path filename id
  -- the directories above the workspace are made where they are missing
  write : ∀ (f : Fs) content q, ¬ w <+: q → ¬ q <+: w → (writeWorkspaceFile f w path content).1.node q = f.node q

/-- The path leads to a directory beside the workspace whose name begins with the name of the workspace. -/
def Strays (w : Path) (path : String) : Prop :=
  w.dropLast <+: destination w path ∧ ∃ name ∈ (destination w path)[w.length - 1]?,
    (w.getLastD "").toList <+: name.toList ∧ name ≠ w.getLastD ""

instance (w : Path) (path : String) : Decidable (Strays w path) :=
  inferInstanceAs (Decidable (_ ∧ ∃ name ∈ _, _))

variable {w t : Path} {f g : Fs} {path : String}

theorem node_of_within (h : within w f = within w g) (ht : w <+: t) : f.node t = g.node t := by
  have hfind : ∀ k : Fs, (k.entries.find? fun e => e.1 = t) = (within w k).find? fun e => e.1 = t := by
    intro k
    rw [within, List.find?_filter]
    congr 1
    funext e
    by_cases he : e.1 = t
    · simp [he, ht]
    · simp [he]
  unfold Fs.node
  rw [hfind f, hfind g, h]

theorem rglob_of_within (h : within w f = within w g) (ht : w <+: t) : f.rglob t = g.rglob t := by
  have hview : ∀ k : Fs, (k.entries.map Prod.fst).filter (fun q => t <+: q ∧ q ≠ t) =
      ((within w k).map Prod.fst).filter fun q => t <+: q ∧ q ≠ t := by
    intro k
    rw [within, List.filter_map, List.filter_map, List.filter_filter]
    congr 2
    funext e
    by_cases he : t <+: e.1
    · have hin : w <+: e.1 := ht.trans he
      simp [he, hin]
    · simp [he]
  unfold Fs.rglob
  rw [hview f, hview g, h]

theorem list_of_within (h : within w f = within w g) (ht : ∀ t, resolveWorkspaceFile w path = some t → w <+: t) :
    listWorkspaceFiles f w path = listWorkspaceFiles g w path := by
  unfold listWorkspaceFiles
  cases hr : resolveWorkspaceFile w path with
  | none => rfl
  | some target =>
    have ht := ht target hr
    have hfiles : (g.rglob target).filter f.isFile = (g.rglob target).filter g.isFile := by
      refine List.filter_congr fun q hq => ?_
      have hmem := (List.mem_insertionSort _).1 hq
      have hpre : target <+: q := (of_decide_eq_true (List.mem_filter.1 hmem).2).1
      exact congrArg (Option.any Node.isFile) (node_of_within h (ht.trans hpre))
    simp only [Fs.present, Fs.isFile, node_of_within h ht, rglob_of_within h ht, hfiles]

/-- A write in the workspace changes nothing but the workspace and what is above it. -/
theorem node_write (ht : ∀ t, resolveWorkspaceFile w path = some t → w <+: t) (content : String) {q : Path}
    (hq : ¬ w <+: q) (hq' : ¬ q <+: w) : (writeWorkspaceFile f w path content).1.node q = f.node q := by
  unfold writeWorkspaceFile
  split
  · rfl
  · cases hr : resolveWorkspaceFile w path with
    | none => rfl
    | some target =>
      have ht := ht target hr
      simp only
      cases hm : f.mkdir target.dropLast with
      | error e => rfl
      | ok k =>
        have hk : k.node q = f.node q := by
          unfold Fs.mkdir at hm
          split at hm
          · cases hm
          · split at hm
            · cases hm
            · cases hm
              refine node_ensureDirs fun hmem => ?_
              have hpre : q <+: target := ((List.mem_inits _ _).1 hmem).trans (List.dropLast_prefix target)
              rcases List.prefix_or_prefix_of_prefix hpre ht with h | h
              · exact hq' h
              · exact hq h
        have hne : q ≠ target := by
          rintro rfl
          exact hq ht
        have hnil : q ≠ [] := by
          rintro rfl
          exact hq' List.nil_prefix
        simp only [Fs.writeText]
        split
        · exact hk
        · rename_i k' hw
          split at hw
          · cases hw
          · cases hw
            rw [Fs.node_put, if_neg hnil, if_neg hne, hk]

/-- What the tools can reach is decided by where the path leads. -/
theorem Confined.of_target (ht : ∀ t, resolveWorkspaceFile w path = some t → w <+: t) : Confined w path where
  target := ht
  read f g h := by
    unfold readWorkspaceFile
    cases hr : resolveWorkspaceFile w path with
    | none => rfl
    | some target => simp only [node_of_within h (ht target hr)]
  list f g h := list_of_within h ht
  publish f g h configured filename id := by
    unfold publishFile
    cases hr : resolveWorkspaceFile w path with
    | none => rfl
    | some target => simp only [node_of_within h (ht target hr)]
  write f content q hq hq' := node_write ht content hq hq'

/-- In a workspace whose last name is `x`, a path strays when it goes on with a longer name. -/
theorem strays_iff {d : Path} {x : String} :
    Strays (d ++ [x]) path ↔
      ∃ name rest, destination (d ++ [x]) path = d ++ name :: rest ∧ x.toList <+: name.toList ∧ name ≠ x := by
  have hlast : (d ++ [x]).getLastD "" = x := by simp
  have hlength : (d ++ [x]).length - 1 = d.length := by simp
  unfold Strays
  rw [List.dropLast_concat, hlast, hlength]
  constructor
  · rintro ⟨⟨r, hr⟩, name, hname, hx, hne⟩
    rw [← hr, Option.mem_def, List.getElem?_append_right (le_refl _), Nat.sub_self] at hname
    cases r with
    | nil => cases hname
    | cons y r =>
      obtain rfl : y = name := Option.some.inj hname
      exact ⟨y, r, hr.symm, hx, hne⟩
  · rintro ⟨name, rest, heq, hx, hne⟩
    rw [heq]
    exact ⟨List.prefix_append _ _, name, by simp, hx, hne⟩

/-- The file tools of a conversation stay in its workspace exactly when the path has a null character or does not
stray. -/
theorem confined_iff (c : Settings) (userId conversationId : Nat) (path : String) :
    Confined ((Party.conversation userId conversationId).workspace c) path ↔
      (Char.ofNat 0 ∈ path.toList ∨ ¬ Strays ((Party.conversation userId conversationId).workspace c) path) := by
  have hw : Proper ((Party.conversation userId conversationId).workspace c) := proper_workspace _
  have hsplit : (Party.conversation userId conversationId).workspace c =
      (c.chatWorkspaceRoot ++ [toString userId]) ++ [toString conversationId] := by
    simp [Party.workspace]
  rw [hsplit] at hw ⊢
  generalize c.chatWorkspaceRoot ++ [toString userId] = d at hw ⊢
  generalize toString conversationId = x at hw ⊢
  have hin := inside_iff hw (slash_not_mem_join (fun part hp => (hw part hp).2.2.2.1) path)
  rw [strays_iff, ← join_eq_destination]
  constructor
  · intro h
    by_contra hno
    rw [not_or, not_not] at hno
    obtain ⟨hnull, name, rest, heq, hx, hne⟩ := hno
    have hr : resolveWorkspaceFile (d ++ [x]) path = some (join (d ++ [x]) path) := by
      rw [resolveWorkspaceFile, if_neg hnull, if_pos (hin.2 ⟨name, rest, heq, hx⟩)]
    have hpre : d ++ [x] <+: d ++ name :: rest := heq ▸ h.target _ hr
    rw [List.prefix_append_right_inj, List.cons_prefix_cons] at hpre
    exact hne hpre.1.symm
  · intro h
    refine .of_target fun t ht => ?_
    unfold resolveWorkspaceFile at ht
    split at ht
    · cases ht
    · rename_i hnull
      split at ht
      · rename_i hinside
        cases ht
        obtain ⟨name, rest, heq, hx⟩ := hin.1 hinside
        have hname : name = x := by
          by_contra hne
          exact h.resolve_left hnull ⟨name, rest, heq, hx, hne⟩
        rw [heq, hname, List.prefix_append_right_inj]
        exact List.prefix_append [x] rest
      · cases ht

/-- Conversation `1` of user `1` reads and writes the files of conversation `12`. -/
theorem not_confined :
    ¬ ∀ (c : Settings) (userId conversationId : Nat) (path : String),
      Confined ((Party.conversation userId conversationId).workspace c) path := by
  intro h
  have hw := (h deployment 1 1 "../12/notes.md").target
    ["var", "lib", "nexus-studio", "chat-workspaces", "1", "12", "notes.md"] (by decide)
  revert hw
  decide

end NexusStudio.Files
