import NexusStudio.Workshop.Roster

/-!
# Proposals of experts

The host proposes an expert, and the user confirms or declines. A confirmation reads the pending proposal, and its
transaction changes the status, only if it is still pending, and makes the expert.

* (ledger) `Ledger`: the decisions that calls have committed beside the status that each proposal has.
* (result) However confirmations and refusals overlap, a proposal is decided once, and confirmed exactly when its
  expert has been made: `decided_once`.
-/

set_option linter.unusedSectionVars false

namespace NexusStudio.Roster

open Concurrent

variable {hexdigest : String → String} {ι : Type} [DecidableEq ι] {s t : State ι} {i : ι} {db db' : Db} {c : Call}
  {rest : List Select} {read found : Option ExpertProposal}

/-! ### Decisions -/

def decisionsOf (decisions : List Decision) (proposalId : String) : List Decision :=
  decisions.filter (·.proposalId = proposalId)

/-- A proposal and its row later on: only the status changes. -/
def ExpertProposal.Same (q r : ExpertProposal) : Prop :=
  r = { q with status := r.status }

/-- The decisions that a proposal's status stands for, with the expert that a confirmation makes. -/
def ExpertProposal.Settled (q : ExpertProposal) (decisions : List Decision) : Prop :=
  match q.status with
  | .pending => decisions = []
  | .declined => decisions = [⟨q.id, none⟩]
  | .confirmed => ∃ expertId, decisions =
      [⟨q.id, some ⟨expertId, q.projectId, q.name, q.kind, none, q.sourcePresetKey⟩⟩]

structure Ledger (db : Db) (decisions : List Decision) (removed : List String) : Prop where
  keys : (db.proposals.map ExpertProposal.id).Nodup
  settled : ∀ q ∈ db.proposals, q.Settled (decisionsOf decisions q.id)
  known : ∀ d ∈ decisions, ∃ q ∈ db.proposals, q.id = d.proposalId
  made : ∀ d ∈ decisions, ∀ x ∈ d.expert, x ∈ db.experts ∨ x.id ∈ removed

/-- What a confirmation has read is a row of its proposal. -/
def Call.Reads (c : Call) (db : Db) (q : ExpertProposal) : Prop :=
  ∀ proposalId expertId, c.work = .confirmExpertProposal proposalId expertId →
    q.id = proposalId ∧ q.projectId = c.projectId ∧ ∃ r ∈ db.proposals, q.Same r

variable {decisions : List Decision} {removed : List String} {q r : ExpertProposal}

theorem decisionsOf_append (d : Decision) (proposalId : String) :
    decisionsOf (decisions ++ [d]) proposalId =
      if d.proposalId = proposalId then decisionsOf decisions proposalId ++ [d]
      else decisionsOf decisions proposalId := by
  rw [decisionsOf, decisionsOf, List.filter_append, List.filter_singleton]
  split <;> simp_all

theorem decisionsOf_new (h : Ledger db decisions removed) {proposalId : String}
    (hnew : ∀ q ∈ db.proposals, q.id ≠ proposalId) : decisionsOf decisions proposalId = [] := by
  refine List.filter_eq_nil_iff.2 fun d hd hid => ?_
  obtain ⟨q, hq, hqid⟩ := h.known d hd
  exact hnew q hq (hqid.trans (of_decide_eq_true hid))

/-- An update that finds a row changes the status of the one pending row with that id. -/
theorem decidePending_ok {projectId proposalId : String} {status : WorkshopProposalStatus}
    (hkeys : (db.proposals.map ExpertProposal.id).Nodup)
    (h : db.decidePending projectId proposalId status = .ok db') :
    ∃ q ∈ db.proposals, q.id = proposalId ∧ q.projectId = projectId ∧ q.status = .pending ∧
      db' = { db with proposals := db.proposals.map fun r => if r.id = proposalId then { r with status } else r } := by
  rw [Db.decidePending] at h
  split at h
  · next hcount =>
    cases h
    obtain ⟨q, hq, hrow⟩ := List.countP_pos_iff.1 (hcount ▸ Nat.one_pos)
    obtain ⟨hid, hproject, hpending⟩ := of_decide_eq_true hrow
    refine ⟨q, hq, hid, hproject, hpending, ?_⟩
    congr 1
    refine List.map_congr_left fun r hr => ?_
    by_cases hrid : r.id = proposalId
    · have hrq : r = q := List.inj_on_of_nodup_map hkeys hr hq (hrid.trans hid.symm)
      rw [if_pos hrid, hrq, if_pos hrow]
    · rw [if_neg hrid, if_neg fun hrow => hrid (of_decide_eq_true hrow).1]
  · cases h

/-- The decision of a pending proposal. -/
theorem Ledger.decide {projectId proposalId : String} {status : WorkshopProposalStatus} {expert : Option RosterExpert}
    (h : Ledger db decisions removed) (hdecide : db.decidePending projectId proposalId status = .ok db')
    (hsettled : ∀ q ∈ db.proposals, q.id = proposalId → q.projectId = projectId →
      ({ q with status } : ExpertProposal).Settled [⟨proposalId, expert⟩])
    (experts : List RosterExpert) (hexperts : db.experts ⊆ experts) (hexpert : ∀ x ∈ expert, x ∈ experts) :
    Ledger { db' with experts } (decisions ++ [⟨proposalId, expert⟩]) removed := by
  obtain ⟨q, hq, hid, hproject, hpending, rfl⟩ := decidePending_ok h.keys hdecide
  have hmap : ∀ r : ExpertProposal,
      (if r.id = proposalId then { r with status } else r : ExpertProposal).id = r.id := by
    intro r
    split <;> rfl
  refine ⟨?_, fun r hr => ?_, fun d hd => ?_, fun d hd x hx => ?_⟩
  · rw [List.map_map]
    have hcomp : ExpertProposal.id ∘ (fun r => if r.id = proposalId then { r with status } else r) =
        ExpertProposal.id := funext hmap
    rw [hcomp]
    exact h.keys
  · obtain ⟨r, hmem, rfl⟩ := List.mem_map.1 hr
    rw [hmap r, decisionsOf_append]
    by_cases hrid : r.id = proposalId
    · have hrq : r = q := List.inj_on_of_nodup_map h.keys hmem hq (hrid.trans hid.symm)
      have hnone : decisionsOf decisions r.id = [] := by
        have hnone := h.settled r hmem
        rwa [ExpertProposal.Settled, hrq, hpending, ← hrq] at hnone
      rw [if_pos hrid, if_pos hrid.symm, hnone, List.nil_append]
      exact hsettled r hmem hrid (hrq ▸ hproject)
    · rw [if_neg hrid, if_neg fun hid' => hrid hid'.symm]
      exact h.settled r hmem
  · have hrow : ∀ r ∈ db.proposals,
        ∃ r' ∈ db.proposals.map fun r => if r.id = proposalId then { r with status } else r,
          r'.id = r.id := fun r hr => ⟨_, List.mem_map_of_mem hr, hmap r⟩
    rcases List.mem_append.1 hd with hd | hd
    · obtain ⟨r, hr, hrid⟩ := h.known d hd
      obtain ⟨r', hr', hid'⟩ := hrow r hr
      exact ⟨r', hr', hid'.trans hrid⟩
    · rw [List.mem_singleton.1 hd]
      obtain ⟨r', hr', hid'⟩ := hrow q hq
      exact ⟨r', hr', hid'.trans hid⟩
  · rcases List.mem_append.1 hd with hd | hd
    · exact (h.made d hd x hx).imp_left fun hmem => hexperts hmem
    · rw [List.mem_singleton.1 hd] at hx
      exact .inl (hexpert x hx)

/-- A write that leaves the proposals alone. -/
theorem Ledger.congr (h : Ledger db decisions removed) {removed' : List String}
    (hproposals : db'.proposals = db.proposals) (hremoved : removed ⊆ removed')
    (hexperts : ∀ x ∈ db.experts, x ∈ db'.experts ∨ x.id ∈ removed') : Ledger db' decisions removed' := by
  refine ⟨hproposals ▸ h.keys, hproposals ▸ h.settled, hproposals ▸ h.known, fun d hd x hx => ?_⟩
  rcases h.made d hd x hx with hmem | hmem
  · exact hexperts x hmem
  · exact .inr (hremoved hmem)

/-! ### Writes -/

theorem insertMember_kept {m : RoomMember} (h : db.insertMember m = .ok db') :
    db'.proposals = db.proposals ∧ db'.experts = db.experts := by
  rw [Db.insertMember] at h
  repeat' split at h
  all_goals cases h
  all_goals exact ⟨rfl, rfl⟩

theorem insertAssignment_kept {a : TaskExpert} (h : db.insertAssignment a = .ok db') :
    db'.proposals = db.proposals ∧ db'.experts = db.experts := by
  rw [Db.insertAssignment] at h
  repeat' split at h
  all_goals cases h
  all_goals exact ⟨rfl, rfl⟩

theorem insertTask_kept {t : WorkshopTask} (h : db.insertTask t = .ok db') :
    db'.proposals = db.proposals ∧ db'.experts = db.experts := by
  rw [Db.insertTask] at h
  repeat' split at h
  all_goals cases h
  exact ⟨rfl, rfl⟩

theorem insertExperts_kept (rows : List RosterExpert) (h : db.insertExperts rows = .ok db') :
    db'.proposals = db.proposals ∧ db.experts ⊆ db'.experts := by
  induction rows generalizing db with
  | nil =>
    cases h
    exact ⟨rfl, fun _ hx => hx⟩
  | cons x rows ih =>
    rw [Db.insertExperts, List.foldlM_cons] at h
    cases hx : db.insertExpert x with
    | error e =>
      rw [hx] at h
      cases h
    | ok db₁ =>
      rw [hx] at h
      obtain ⟨hproposals, hexperts⟩ := ih h
      obtain ⟨-, -, -, rfl⟩ := insertExpert_ok hx
      exact ⟨hproposals, fun y hy => hexperts (List.mem_append_left _ hy)⟩

theorem createProject_kept {p : WorkshopProject} {presets : List PresetExpert}
    (h : db.createProjectWithPresets hexdigest p presets = .ok db') :
    db'.proposals = db.proposals ∧ db.experts ⊆ db'.experts := by
  rw [Db.createProjectWithPresets, Db.insertProject] at h
  split at h
  · cases h
  · obtain ⟨hproposals, hexperts⟩ := insertExperts_kept _ h
    exact ⟨hproposals, hexperts⟩

/-- An expert that a removal takes away is the one that it names. -/
theorem deleteExpert_kept {projectId expertId : String} (h : db.deleteExpert projectId expertId = .ok db') :
    db'.proposals = db.proposals ∧ ∀ x ∈ db.experts, x ∈ db'.experts ∨ x.id = expertId := by
  rw [Db.deleteExpert] at h
  split at h
  · cases h
    refine ⟨rfl, fun x hx => ?_⟩
    by_cases hid : x.id = expertId
    · exact .inr hid
    · exact .inl (List.mem_filter.2 ⟨hx, by simp [hid]⟩)
  · cases h

theorem Ledger.insertProposal (h : Ledger db decisions removed) (hpending : q.status = .pending)
    (hinsert : db.insertProposal q = .ok db') :
    Ledger db' decisions removed ∧ db'.proposals = db.proposals ++ [q] := by
  rw [Db.insertProposal] at hinsert
  split at hinsert
  · cases hinsert
  · next hnew =>
    split at hinsert
    · cases hinsert
      have hnew : ∀ r ∈ db.proposals, r.id ≠ q.id := fun r hr hid =>
        hnew (List.any_eq_true.2 ⟨r, hr, decide_eq_true hid⟩)
      refine ⟨⟨?_, fun r hr => ?_, fun d hd => ?_, h.made⟩, rfl⟩
      · rw [List.map_append, List.nodup_append]
        refine ⟨h.keys, List.nodup_singleton _, fun id hid id' hid' => ?_⟩
        obtain ⟨r, hr, rfl⟩ := List.mem_map.1 hid
        rw [List.map_singleton, List.mem_singleton] at hid'
        rw [hid']
        exact hnew r hr
      · rcases List.mem_append.1 hr with hr | hr
        · exact h.settled r hr
        · rw [List.mem_singleton.1 hr, ExpertProposal.Settled, hpending]
          exact decisionsOf_new h hnew
      · obtain ⟨r, hr, hid⟩ := h.known d hd
        exact ⟨r, List.mem_append_left _ hr, hid⟩
    · cases hinsert

/-- What a write does to the proposals and to what has been decided. -/
theorem ledger_write {row : Option RosterExpert} (h : Ledger db decisions removed)
    (hread : ∀ q ∈ read, c.Reads db q) (hwrite : db.write hexdigest c read = .ok (db', row)) :
    Ledger db' (decisions ++ c.decision row) (removed ++ c.removal) ∧
      ∀ q ∈ db.proposals, ∃ r ∈ db'.proposals, q.Same r := by
  have hsame : ∀ {db₁ : Db}, db₁.proposals = db.proposals → ∀ q ∈ db.proposals, ∃ r ∈ db₁.proposals, q.Same r :=
    fun heq q hq => ⟨q, heq ▸ hq, rfl⟩
  have hdecided : ∀ {proposalId : String} {status : WorkshopProposalStatus} {db₁ : Db},
      db.decidePending c.projectId proposalId status = .ok db₁ → ∀ q ∈ db.proposals, ∃ r ∈ db₁.proposals, q.Same r := by
    intro proposalId status db₁ hdecide q hq
    obtain ⟨-, -, -, -, -, rfl⟩ := decidePending_ok h.keys hdecide
    refine ⟨_, List.mem_map_of_mem hq, ?_⟩
    split <;> rfl
  cases hwork : c.work with
  | addCustomExpert expertId name kind source =>
    rw [Db.write, hwork] at hwrite
    obtain ⟨hx, -⟩ := of_bind_pure hwrite
    obtain ⟨-, -, -, rfl⟩ := insertExpert_ok hx
    rw [Call.decision, Call.removal, hwork, List.append_nil, List.append_nil]
    exact ⟨h.congr rfl (fun _ hid => hid) fun x hx => .inl (List.mem_append_left _ hx), hsame rfl⟩
  | addPresetExpert preset =>
    rw [Db.write, hwork] at hwrite
    obtain ⟨hx, -⟩ := of_bind_pure hwrite
    obtain ⟨-, -, -, rfl⟩ := insertExpert_ok hx
    rw [Call.decision, Call.removal, hwork, List.append_nil, List.append_nil]
    exact ⟨h.congr rfl (fun _ hid => hid) fun x hx => .inl (List.mem_append_left _ hx), hsame rfl⟩
  | createExpertProposal proposalId name kind source =>
    rw [Db.write, hwork] at hwrite
    obtain ⟨hinsert, -⟩ := of_bind_pure hwrite
    obtain ⟨hledger, hproposals⟩ := h.insertProposal rfl hinsert
    rw [Call.decision, Call.removal, hwork, List.append_nil, List.append_nil]
    exact ⟨hledger, fun q hq => ⟨q, hproposals ▸ List.mem_append_left _ hq, rfl⟩⟩
  | confirmExpertProposal proposalId expertId =>
    rw [Db.write, hwork] at hwrite
    obtain ⟨q₀, db₁, hq₀, hdecide, hx, rfl⟩ := confirm_ok hwrite
    obtain ⟨-, -, -, rfl⟩ := insertExpert_ok hx
    obtain ⟨hid₀, hproject₀, r, hr, hsame₀⟩ := hread q₀ hq₀ proposalId expertId hwork
    have hexperts : db₁.experts = db.experts := by
      obtain ⟨-, -, -, -, -, rfl⟩ := decidePending_ok h.keys hdecide
      rfl
    rw [Call.decision, Call.removal, hwork, List.append_nil]
    refine ⟨h.decide hdecide (fun q hq hid hproject => ?_) _ (fun x hx => ?_) (fun x hx => ?_), fun q hq => ?_⟩
    · -- the row that was read and the row that is confirmed are one proposal
      have hqr : q = r := List.inj_on_of_nodup_map h.keys hq hr (by rw [hid, hsame₀, hid₀])
      refine ⟨expertId, ?_⟩
      rw [hqr, hsame₀]
      simp only [confirmedRow, customRow, hid₀, hproject₀]
    · exact List.mem_append_left _ (hexperts ▸ hx)
    · rw [Option.mem_some_iff.1 hx]
      exact List.mem_append_right _ (List.mem_singleton_self _)
    · obtain ⟨r', hr', hqr'⟩ := hdecided hdecide q hq
      exact ⟨r', hr', hqr'⟩
  | declineExpertProposal proposalId =>
    rw [Db.write, hwork] at hwrite
    obtain ⟨hdecide, -⟩ := of_bind_pure hwrite
    have hexperts : db'.experts = db.experts := by
      obtain ⟨-, -, -, -, -, rfl⟩ := decidePending_ok h.keys hdecide
      rfl
    rw [Call.decision, Call.removal, hwork, List.append_nil]
    refine ⟨h.decide hdecide (fun q _ hid _ => ?_) db'.experts (fun x hx => hexperts ▸ hx)
      (fun x hx => by cases hx), hdecided hdecide⟩
    rw [ExpertProposal.Settled, hid]
  | removeExpert expertId =>
    rw [Db.write, hwork] at hwrite
    obtain ⟨hdelete, -⟩ := of_bind_pure hwrite
    obtain ⟨hproposals, hexperts⟩ := deleteExpert_kept hdelete
    rw [Call.decision, Call.removal, hwork, List.append_nil]
    refine ⟨h.congr hproposals (List.subset_append_left ..) fun x hx => ?_, hsame hproposals⟩
    exact (hexperts x hx).imp_right fun hid => List.mem_append_right _ (List.mem_singleton.2 hid)
  | addRoomMember expertId =>
    rw [Db.write, hwork] at hwrite
    obtain ⟨hinsert, -⟩ := of_bind_pure hwrite
    obtain ⟨hproposals, hexperts⟩ := insertMember_kept hinsert
    rw [Call.decision, Call.removal, hwork, List.append_nil, List.append_nil]
    exact ⟨h.congr hproposals (fun _ hid => hid) fun x hx => .inl (hexperts ▸ hx), hsame hproposals⟩
  | assignTaskExpert taskId expertId =>
    rw [Db.write, hwork] at hwrite
    obtain ⟨hinsert, -⟩ := of_bind_pure hwrite
    obtain ⟨hproposals, hexperts⟩ := insertAssignment_kept hinsert
    rw [Call.decision, Call.removal, hwork, List.append_nil, List.append_nil]
    exact ⟨h.congr hproposals (fun _ hid => hid) fun x hx => .inl (hexperts ▸ hx), hsame hproposals⟩
  | unassignTaskExpert taskId expertId =>
    rw [Db.write, hwork] at hwrite
    cases hwrite
    rw [Call.decision, Call.removal, hwork, List.append_nil, List.append_nil]
    exact ⟨h.congr rfl (fun _ hid => hid) fun x hx => .inl hx, hsame rfl⟩
  | createTask taskId =>
    rw [Db.write, hwork] at hwrite
    obtain ⟨hinsert, -⟩ := of_bind_pure hwrite
    obtain ⟨hproposals, hexperts⟩ := insertTask_kept hinsert
    rw [Call.decision, Call.removal, hwork, List.append_nil, List.append_nil]
    exact ⟨h.congr hproposals (fun _ hid => hid) fun x hx => .inl (hexperts ▸ hx), hsame hproposals⟩

/-! ### Runs -/

structure Tracked (hexdigest : String → String) (s : State ι) : Prop where
  ledger : Ledger s.db s.decisions s.removed
  reads : ∀ i c rest q, s.pc i = .running c rest (some q) → c.Reads s.db q
  selects : ∀ i c rest read, s.pc i = .running c rest read → rest ⊆ c.selects hexdigest

theorem Call.Reads.mono (h : c.Reads db q) (hkept : ∀ q ∈ db.proposals, ∃ r ∈ db'.proposals, q.Same r) :
    c.Reads db' q := by
  intro proposalId expertId hwork
  obtain ⟨hid, hproject, r, hr, hsame⟩ := h proposalId expertId hwork
  obtain ⟨r', hr', hsame'⟩ := hkept r hr
  exact ⟨hid, hproject, r', hr', by rw [ExpertProposal.Same, hsame', hsame]⟩

theorem Tracked.advance (h : Tracked hexdigest s) {pc : Pc} (hledger : Ledger db' decisions removed)
    (hkept : ∀ q ∈ s.db.proposals, ∃ r ∈ db'.proposals, q.Same r)
    (hreads : ∀ c rest q, pc = .running c rest (some q) → c.Reads db' q)
    (hselects : ∀ c rest read, pc = .running c rest read → rest ⊆ c.selects hexdigest) :
    Tracked hexdigest ⟨db', Function.update s.pc i pc, decisions, removed⟩ := by
  refine ⟨hledger, fun j c rest q hj => ?_, fun j c rest read hj => ?_⟩
  all_goals dsimp only at hj; by_cases hji : j = i
  · rw [hji, Function.update_self] at hj
    exact hreads c rest q hj
  · rw [Function.update_of_ne hji] at hj
    exact (h.reads j c rest q hj).mono hkept
  · rw [hji, Function.update_self] at hj
    exact hselects c rest read hj
  · rw [Function.update_of_ne hji] at hj
    exact h.selects j c rest read hj

theorem Tracked.setPc (h : Tracked hexdigest s) {pc : Pc}
    (hreads : ∀ c rest q, pc = .running c rest (some q) → c.Reads s.db q)
    (hselects : ∀ c rest read, pc = .running c rest read → rest ⊆ c.selects hexdigest) :
    Tracked hexdigest (s.setPc i pc) :=
  h.advance h.ledger (fun q hq => ⟨q, hq, rfl⟩) hreads hselects

/-- The select of a confirmation finds its own proposal. -/
theorem reads_of_select {sel : Select} (hsel : sel ∈ c.selects hexdigest) (h : s.db.select c sel = .ok (some q)) :
    c.Reads s.db q := by
  intro proposalId expertId hwork
  rw [Call.selects, hwork] at hsel
  rcases List.mem_pair.1 hsel with rfl | rfl
  · rw [Db.select] at h
    split at h <;> cases h
  · rw [Db.select, Db.pendingProposal] at h
    split at h
    · next q' hfind =>
      cases h
      have hrow := List.find?_some hfind
      obtain ⟨hid, hproject, -⟩ := of_decide_eq_true hrow
      exact ⟨hid, hproject, q, List.mem_of_find?_eq_some hfind, rfl⟩
    · cases h

theorem tracked_step (h : Tracked hexdigest s) {a : Action ι} (hstep : step hexdigest s a = some t) :
    Tracked hexdigest t := by
  rcases step_cases hstep with ⟨p, presets, -, rfl⟩ | ⟨i, c, -, rfl⟩ | ⟨i, c, sel, rest, read, hpc, rfl⟩ |
    ⟨i, c, read, -, hpc, rfl⟩ | ⟨i, pc, hpc, rfl⟩
  · rw [State.creates]
    split
    · next db hcreate =>
      obtain ⟨hproposals, hexperts⟩ := createProject_kept hcreate
      refine ⟨h.ledger.congr hproposals (fun _ hid => hid) fun x hx => .inl (hexperts hx), ?_, h.selects⟩
      exact fun i c rest q hpc => (h.reads i c rest q hpc).mono fun r hr => ⟨r, hproposals ▸ hr, rfl⟩
    · exact h
  · refine h.setPc (fun c' rest q heq => by cases heq) fun c' rest read heq => ?_
    cases heq
    exact fun _ hsel => hsel
  · rw [State.selects]
    have hsubset := h.selects i c (sel :: rest) read hpc
    split
    · next found hfound =>
      refine h.setPc (fun c' rest' q heq => ?_) fun c' rest' read' heq => ?_
      · cases found with
        | none =>
          cases heq
          exact h.reads i c (sel :: rest) q hpc
        | some q' =>
          cases heq
          exact reads_of_select (hsubset List.mem_cons_self) hfound
      · cases heq
        exact fun sel' hsel' => hsubset (List.mem_cons_of_mem sel hsel')
    · exact h.setPc (fun _ _ _ heq => by cases heq) fun _ _ _ heq => by cases heq
  · rw [State.writes]
    split
    · next db row hwrite =>
      have hread : ∀ q ∈ read, c.Reads s.db q := fun q hq => h.reads i c [] q (hpc.trans (by rw [hq]))
      obtain ⟨hledger, hkept⟩ := ledger_write h.ledger hread hwrite
      exact h.advance hledger hkept (fun _ _ _ heq => by cases heq) fun _ _ _ heq => by cases heq
    · next e _ =>
      exact h.setPc (fun _ _ _ heq => absurd heq (afterRaise_ne e)) fun _ _ _ heq => absurd heq (afterRaise_ne e)
  · exact h.setPc (fun c rest q heq => absurd heq (hpc c rest _)) fun c rest read heq => absurd heq (hpc c rest read)

theorem tracked_init (h : (machine hexdigest).init s) : Tracked hexdigest s := by
  cases h
  refine ⟨⟨List.nodup_nil, ?_, ?_, ?_⟩, ?_, ?_⟩
  · exact fun q hq => absurd hq List.not_mem_nil
  · exact fun d hd => absurd hd List.not_mem_nil
  · exact fun d hd => absurd hd List.not_mem_nil
  · exact fun i c rest q hpc => by cases hpc
  · exact fun i c rest read hpc => by cases hpc

/-- A proposal is pending as long as nothing has been decided; a refusal is its only decision, and so is a
confirmation, which has put the proposed expert on the roster. The expert stays there until it is removed. -/
theorem decided_once (h : (machine hexdigest).Reach Free s) (hq : q ∈ s.db.proposals) :
    q.Settled (decisionsOf s.decisions q.id) ∧
      ∀ d ∈ decisionsOf s.decisions q.id, ∀ x ∈ d.expert, x ∈ s.db.experts ∨ x.id ∈ s.removed := by
  have htracked : Tracked hexdigest s := h.induct (P := fun s => Tracked hexdigest s)
    (fun _ hinit => tracked_init hinit) fun _ _ _ hs _ hstep => tracked_step hs hstep
  refine ⟨htracked.ledger.settled q hq, fun d hd => ?_⟩
  exact htracked.ledger.made d (List.mem_filter.1 hd).1

/-- A refusal that a confirmation overtakes. -/
theorem decided_once_office :
    ∃ s q, (machine (ι := ℕ) fun _ => "").Reach Free s ∧ q ∈ s.db.proposals ∧ q.status = .confirmed ∧
      s.pc 2 = .returned (.error (.proposalNotFound "exp_prop_1")) ∧ q.Settled (decisionsOf s.decisions q.id) := by
  obtain ⟨s, -, hreach, hend⟩ := (machine (ι := ℕ) fun _ => "").reach_of_exec (C := Free)
    (p := fun s => s.db.proposals.any fun q => decide (q.status = .confirmed ∧
      s.pc 2 = .returned (.error (.proposalNotFound "exp_prop_1"))))
    [.create officeId 1 [⟨"host", "Host", .advisor⟩],
      .start 0 ⟨officeId, 1, .createExpertProposal "exp_prop_1" "Writer" .executor none⟩, .next 0, .next 0,
      .start 1 ⟨officeId, 1, .confirmExpertProposal "exp_prop_1" "re_custom_1"⟩, .next 1, .next 1,
      .start 2 ⟨officeId, 1, .declineExpertProposal "exp_prop_1"⟩, .next 2, .next 1, .next 2]
    rfl (by decide)
  obtain ⟨q, hq, hconfirmed⟩ := List.any_eq_true.1 hend
  obtain ⟨hconfirmed, hlate⟩ := of_decide_eq_true hconfirmed
  exact ⟨s, q, hreach, hq, hconfirmed, hlate, (decided_once hreach hq).1⟩

end NexusStudio.Roster
