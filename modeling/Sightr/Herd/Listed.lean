import Sightr.Herd.Sound

/-!
# The threads after a diff

After a diff the thread of a listed pane says what the pane says, every other thread of that pane is
archived, no snooze is due, and a live thread whose pane is gone has been missed before or is still being
spawned.
-/

namespace Sightr

open Keyed (Table)

/-! ### In line with the pane -/

section

variable (projection : HerdProjection) (ctx : HerdDiffContext)

/-- A live thread says what its pane says; while it is being spawned, the spawn's fields stay. -/
structure InLine (pane : AgentView) (t : ServerThread) : Prop where
  paneAlive : t.paneAlive = some true
  harness : ¬ (t.status = .starting ∧ pane.shell = true) → t.harness = harnessFor ctx pane
  capabilities : ¬ (t.status = .starting ∧ pane.shell = true) →
    t.capabilities = ctx.capabilities (harnessFor ctx pane)
  title : ¬ (t.status = .starting ∧ pane.shell = true) → t.titleSource = .herd →
    t.title = herdTitle pane (harnessFor ctx pane)
  unreadDone : ¬ (t.status = .starting ∧ pane.shell = true) →
    t.unreadDone = isUnreadDone pane.status (ctx.activity pane.paneId)
  status : t.status = paneStatus projection ctx pane t
  lastActivityAt : ∀ time, (ctx.touchedAt pane.paneId <|> (ctx.activity pane.paneId).map (·.activeAt)) =
    some time → t.lastActivityAt = time
  sessionRef : t.sessionRef = pane.agentSession

end

/-- What the diff compares of a thread with its pane. -/
def ThreadOf.lookFields (t : ServerThread) :
    String × Option Bool × ThreadStatus × String × ThreadCapabilities × String × NameSource × Bool × Int ×
      Option AgentSessionRef :=
  (t.id, t.paneAlive, t.status, t.harness, t.capabilities, t.title, t.titleSource, t.unreadDone,
    t.lastActivityAt, t.sessionRef)

section

variable {projection : HerdProjection} {ctx : HerdDiffContext} {pane : AgentView}

variable {t : ServerThread}

theorem InLine.of_fields {s : ServerThread} (h : InLine projection ctx pane t)
    (hfields : s.lookFields = t.lookFields) :
    InLine projection ctx pane s := by
  simp only [ThreadOf.lookFields, Prod.mk.injEq] at hfields
  obtain ⟨hid, halive, hstatus, hharness, hcapabilities, htitle, hsource, hunread, hlast, hsession⟩ := hfields
  have hpaneStatus : paneStatus projection ctx pane s = paneStatus projection ctx pane t := by
    unfold paneStatus
    rw [hid, hstatus]
  constructor
  · rw [halive, h.paneAlive]
  · rw [hstatus, hharness]
    exact h.harness
  · rw [hstatus, hcapabilities]
    exact h.capabilities
  · rw [hstatus, hsource, htitle]
    exact h.title
  · rw [hstatus, hunread]
    exact h.unreadDone
  · rw [hstatus, hpaneStatus]
    exact h.status
  · rw [hlast]
    exact h.lastActivityAt
  · rw [hsession, h.sessionRef]

end

/-! ### A thread is brought in line -/

/-- The context sees the same of the herd, at the same time; what the ingest remembers and the ids may
differ. -/
def SameLook (ctx ctx' : HerdDiffContext) : Prop :=
  ∃ newId first missingThreads missingProjects, ctx' = { ctx with newId, first, missingThreads, missingProjects }

/-- The requests of a thread ask for the same answer to "is one of them for a permission?". -/
def SameKinds (projection projection' : HerdProjection) (threadId : String) : Prop :=
  (openKinds projection' threadId).any (fun k => k = .permission || k = .trust) =
    (openKinds projection threadId).any fun k => k = .permission || k = .trust

theorem threadStatusFor_threadStatusFor {herd : AgentStatus} {unreadDone : Bool}
    {kinds kinds' : List RuntimeRequestKind} {previous : Option ThreadStatus}
    (hkinds : kinds'.any (fun k => k = .permission || k = .trust) =
      kinds.any fun k => k = .permission || k = .trust) :
    threadStatusFor herd unreadDone kinds' (some (threadStatusFor herd unreadDone kinds previous)) =
      threadStatusFor herd unreadDone kinds previous := by
  cases herd with
  | working => rfl
  | blocked =>
    unfold threadStatusFor
    dsimp only
    rw [hkinds]
  | idle | done | unknown =>
    unfold threadStatusFor
    dsimp only
    by_cases hfailed : previous = some .failed
    · simp [hfailed]
    · cases unreadDone <;> simp [hfailed]

section

variable {projection projection' : HerdProjection} {ctx ctx' : HerdDiffContext} {pane : AgentView}

theorem over_changed {α : Type} [DecidableEq α] (old new : α) :
    ((changed old new).spreadOver (some old)).getD old = new := by
  unfold changed
  split_ifs with h
  · exact h
  · rfl

theorem paneStatus_paneStatus {t s : ServerThread} (hid : s.id = t.id)
    (hstatus : s.status = paneStatus projection ctx pane t) (hlook : SameLook ctx ctx')
    (hkinds : SameKinds projection projection' t.id) : s.status = paneStatus projection' ctx' pane s := by
  obtain ⟨newId, first, missingThreads, missingProjects, rfl⟩ := hlook
  unfold paneStatus at hstatus ⊢
  by_cases hspawning : t.status = .starting ∧ pane.shell = true
  · have hcond : (decide (t.status = .starting) && pane.shell) = true := by simpa using hspawning
    rw [if_pos hcond] at hstatus
    have hkept : (decide (s.status = .starting) && pane.shell) = true := by simpa [hstatus] using hspawning
    rw [if_pos hkept]
  · have hcond : ¬ (decide (t.status = .starting) && pane.shell) = true := by simpa using hspawning
    rw [if_neg hcond] at hstatus
    have hkept : ¬ (decide (s.status = .starting) && pane.shell) = true := by
      simp [hstatus, threadStatusFor_ne_starting]
    rw [if_neg hkept, hid, hstatus]
    exact (threadStatusFor_threadStatusFor hkinds).symm

theorem inLine_applyPatch {adopted : Bool} {t : ServerThread} (hlook : SameLook ctx ctx')
    (hkinds : SameKinds projection projection' t.id) :
    InLine projection' ctx' pane (applyPatch t (panePatch projection ctx pane adopted t) ctx.now) := by
  have hspawn : ∀ s : ServerThread, s.status = paneStatus projection ctx pane t →
      ¬ (s.status = .starting ∧ pane.shell = true) →
      (decide (t.status = .starting) && pane.shell) = false := by
    intro s hs hnot
    by_contra hcond
    have hspawning : t.status = .starting ∧ pane.shell = true := by simpa using hcond
    refine hnot ⟨?_, hspawning.2⟩
    rw [hs]
    unfold paneStatus
    rw [if_pos (by simpa using hspawning)]
    exact hspawning.1
  have hstatus : (applyPatch t (panePatch projection ctx pane adopted t) ctx.now).status =
      paneStatus projection ctx pane t := over_changed _ _
  have hself := hspawn _ hstatus
  obtain ⟨newId, first, missingThreads, missingProjects, rfl⟩ := id hlook
  constructor
  · simp only [applyPatch, panePatch]
    split_ifs with halive
    · exact halive
    · rfl
  · intro hnot
    simp only [applyPatch, panePatch, hself hnot, Bool.false_eq_true, if_false]
    exact over_changed _ _
  · intro hnot
    simp only [applyPatch, panePatch, hself hnot, Bool.false_eq_true, if_false]
    exact over_changed _ _
  · intro hnot hsource
    have hkept : t.titleSource = .herd := hsource
    simp only [applyPatch, panePatch, hself hnot, hkept, ne_eq, not_true_eq_false, decide_false, Bool.or_self,
      Bool.false_eq_true, if_false]
    exact over_changed _ _
  · intro hnot
    simp only [applyPatch, panePatch, hself hnot, Bool.false_eq_true, if_false]
    exact over_changed _ _
  · exact paneStatus_paneStatus (t := t) rfl hstatus hlook hkinds
  · intro time htime
    have htime' : (ctx.touchedAt pane.paneId <|> (ctx.activity pane.paneId).map (·.activeAt)) = some time := htime
    simp only [applyPatch, panePatch]
    rw [htime']
    exact over_changed _ _
  · simp only [applyPatch, panePatch]
    split_ifs with hsession
    · exact hsession
    · rfl

theorem inLine_updatedThread {adopted : Bool} {t : ServerThread} (hlook : SameLook ctx ctx')
    (hkinds : SameKinds projection projection' t.id) :
    InLine projection' ctx' pane (updatedThread projection ctx pane adopted t) := by
  refine (@inLine_applyPatch projection projection' ctx ctx' pane adopted t hlook hkinds).of_fields ?_
  unfold updatedThread
  dsimp only
  by_cases hempty : panePatch projection ctx pane adopted t ≠ {}
  · simp only [if_pos hempty]
    split_ifs <;> rfl
  · rw [not_ne_iff] at hempty
    simp only [hempty, ne_eq, not_true_eq_false, if_false]
    split_ifs <;> rfl

theorem inLine_createdThread {id : String} (hlook : SameLook ctx ctx') (hkinds : openKinds projection' id = []) :
    InLine projection' ctx' pane (createdThread ctx pane id) := by
  obtain ⟨newId, first, missingThreads, missingProjects, rfl⟩ := hlook
  have hnot : (createdThread ctx pane id).status ≠ .starting := threadStatusFor_ne_starting _ _ _ _
  constructor
  · rfl
  · exact fun _ => rfl
  · exact fun _ => rfl
  · exact fun _ _ => rfl
  · exact fun _ => rfl
  · unfold paneStatus
    rw [if_neg (by simp [hnot])]
    have hid : (createdThread ctx pane id).id = id := rfl
    rw [hid, hkinds]
    exact (threadStatusFor_threadStatusFor rfl).symm
  · intro time htime
    have htime' : (ctx.touchedAt pane.paneId <|> (ctx.activity pane.paneId).map (·.activeAt)) = some time := htime
    simp only [createdThread]
    rw [htime']
    rfl
  · rfl

end

/-! ### What a diff makes of the pane's thread -/

section

variable {projection : HerdProjection} {ctx : HerdDiffContext} {pane : AgentView}

theorem terminalId_updatedThread (adopted : Bool) (t : ServerThread) :
    (updatedThread projection ctx pane adopted t).terminalId =
      if adopted then pane.terminalId.getD "" else t.terminalId := by
  have hpatched : (if panePatch projection ctx pane adopted t ≠ {} then
      applyPatch t (panePatch projection ctx pane adopted t) ctx.now else t).terminalId =
        if adopted then pane.terminalId.getD "" else t.terminalId := by
    by_cases hempty : panePatch projection ctx pane adopted t ≠ {}
    · rw [if_pos hempty]
      cases adopted <;> rfl
    · rw [if_neg hempty]
      cases adopted with
      | false => rfl
      | true => exact absurd (congrArg (·.terminalId) (not_ne_iff.mp hempty)) (by simp [panePatch])
  unfold updatedThread
  dsimp only
  split_ifs at hpatched ⊢ <;> exact hpatched

variable {t : ServerThread}

theorem shelf_updatedThread {adopted : Bool} (h : t.shelf ≠ .archived) :
    (updatedThread projection ctx pane adopted t).shelf ≠ .archived := by
  unfold updatedThread
  dsimp only
  split_ifs
  · simp [ThreadOf.reshelved]
  · simp [ThreadOf.reshelved]
  · exact h
  · exact h

/-- The pane's thread: it stays archived, for a reason that is not the loss of its pane, or it is brought
in line. -/
theorem knownThread_cases {thread : ServerThread} {adopted : Bool}
    (hown : threadOfPane projection pane = (some thread, adopted)) :
    let known := knownThread projection ctx pane adopted thread
    known.terminalId = pane.terminalId.getD "" ∧
      (thread.shelf = .archived ∧ thread.archiveReason ≠ some .paneClosed ∧
          thread.archiveReason ≠ some .closedWhileDown ∧ known.shelf = .archived ∧
          known.archiveReason = thread.archiveReason ∧ known.paneAlive = some true ∨
        (thread.shelf = .archived → thread.archiveReason = some .paneClosed ∨
          thread.archiveReason = some .closedWhileDown) ∧
        ∃ t, t.id = thread.id ∧ t.shelf ≠ .archived ∧ known = updatedThread projection ctx pane adopted t) := by
  obtain ⟨-, -, hterminal⟩ := threadOfPane_some hown
  have hterminal' : (if adopted then pane.terminalId.getD "" else thread.terminalId) = pane.terminalId.getD "" := by
    rcases hterminal with ⟨rfl, hterminal⟩ | ⟨rfl, -⟩
    · exact hterminal
    · rfl
  intro known
  by_cases harchived : thread.shelf = .archived
  · have hkept : adopted = false := by
      rcases hterminal with ⟨hfalse, -⟩ | ⟨-, -, -, hlive, -⟩
      · exact hfalse
      · exact absurd harchived hlive
    subst hkept
    by_cases hreason : thread.archiveReason ≠ some .paneClosed ∧ thread.archiveReason ≠ some .closedWhileDown
    · by_cases halive : thread.paneAlive ≠ some true
      · have hknown : known = applyPatch thread { paneAlive := .val true } ctx.now := by
          simp only [known, knownThread, if_pos harchived, if_pos hreason, if_pos halive]
        rw [hknown]
        exact ⟨hterminal', .inl ⟨harchived, hreason.1, hreason.2, harchived, rfl, rfl⟩⟩
      · have hknown : known = thread := by
          simp only [known, knownThread, if_pos harchived, if_pos hreason, if_neg halive]
        rw [hknown]
        exact ⟨hterminal', .inl ⟨harchived, hreason.1, hreason.2, harchived, rfl, not_ne_iff.mp halive⟩⟩
    · have hknown : known = updatedThread projection ctx pane false (thread.reshelved .active none none ctx.now) := by
        simp only [known, knownThread, if_pos harchived, if_neg hreason]
      refine ⟨?_, .inr ⟨fun _ => ?_, thread.reshelved .active none none ctx.now, rfl, ?_, hknown⟩⟩
      · rw [hknown, terminalId_updatedThread]
        exact hterminal'
      · by_contra hnot
        exact hreason (not_or.mp hnot)
      · simp [ThreadOf.reshelved]
  · have hknown : known = updatedThread projection ctx pane adopted thread := by
      simp only [known, knownThread, if_neg harchived]
    refine ⟨?_, .inr ⟨fun h => absurd h harchived, thread, rfl, harchived, hknown⟩⟩
    rw [hknown, terminalId_updatedThread]
    exact hterminal'

theorem snoozeFate_keeps (t : ServerThread) :
    (snoozeFate ctx t).lookFields = t.lookFields ∧ (snoozeFate ctx t).terminalId = t.terminalId ∧
      ((snoozeFate ctx t).shelf = .archived ↔ t.shelf = .archived) := by
  unfold snoozeFate
  split_ifs with hdue
  · exact ⟨rfl, rfl, by simp [ThreadOf.reshelved, hdue.1]⟩
  · exact ⟨rfl, rfl, Iff.rfl⟩

theorem snoozeFate_of_archived (h : t.shelf = .archived) : snoozeFate ctx t = t := by
  unfold snoozeFate
  rw [if_neg]
  rintro ⟨hsnoozed, -⟩
  rw [h] at hsnoozed
  cases hsnoozed

theorem storedCopy_of_live (h : t.shelf ≠ .archived) : storedCopy t = t := by
  unfold storedCopy
  rw [if_neg h]

@[simp] theorem shelf_storedCopy (t : ServerThread) : (storedCopy t).shelf = t.shelf := by
  unfold storedCopy
  split_ifs <;> rfl

@[simp] theorem paneAlive_storedCopy (t : ServerThread) : (storedCopy t).paneAlive = t.paneAlive := by
  unfold storedCopy
  split_ifs <;> rfl

@[simp] theorem archiveReason_storedCopy (t : ServerThread) : (storedCopy t).archiveReason = t.archiveReason := by
  unfold storedCopy
  split_ifs <;> rfl

end

/-! ### The rows after a diff -/

section

variable {p p' : Projection} {ctx ctx' : HerdDiffContext} {snap : EngineSnapshot}

variable {t' : ServerThread}

theorem SoundDiff.row_cases (h : SoundDiff p ctx snap p') (ht' : t' ∈ p'.threads.rows) :
    (∃ t ∈ p.threads.rows, t' = storedCopy (threadFate p.herd ctx snap t)) ∨
      ∃ pane ∈ snap.panes, (threadOfPane p.herd pane).1 = none ∧
        ∃ i < snap.panes.length, t' = createdThread ctx pane (ctx.newId i) := by
  have hfates := (threadWork_fates h.sound.coherent h.fresh h.panes).1
  have hfind := h.threads t'.id
  rw [Table.find?_key ht'] at hfind
  obtain ⟨t, ht, rfl⟩ := Option.map_eq_some_iff.mp hfind.symm
  rcases hfates.only _ t ht with ⟨s, hs, hid⟩ | ⟨pane, hpane, hnone, i, hi, hid, hmade⟩
  · rw [← hid, hfates.own s hs] at ht
    exact .inl ⟨s, Projection.mem_listThreads.mp hs, by rw [Option.some.inj ht]⟩
  · rw [hid] at hmade
    refine .inr ⟨pane, hpane, hnone, i, hi, ?_⟩
    rw [hmade]
    exact storedCopy_of_live (by simp [createdThread])

variable {t : ServerThread}

theorem SoundDiff.row_of (h : SoundDiff p ctx snap p') (ht : t ∈ p.threads.rows) :
    storedCopy (threadFate p.herd ctx snap t) ∈ p'.threads.rows := by
  have hfates := (threadWork_fates h.sound.coherent h.fresh h.panes).1
  have hfind := h.threads t.id
  rw [hfates.own t (Projection.mem_listThreads.mpr ht)] at hfind
  exact Table.mem_of_find? hfind

variable {projection : HerdProjection} {pane : AgentView}

theorem threadFate_listed (hpanes : (snap.panes.map (·.paneId)).Nodup) (hpane : pane ∈ snap.panes)
    (ht : t.paneId = pane.paneId) :
    threadFate projection ctx snap t = snoozeFate ctx (paneFate projection ctx pane t) := by
  unfold threadFate
  cases hfind : snap.panes.find? (·.paneId = t.paneId) with
  | none => exact absurd ht.symm (by simpa using List.find?_eq_none.mp hfind pane hpane)
  | some other =>
    have hsame : other.paneId = pane.paneId := by
      rw [← ht]
      simpa using List.find?_some hfind
    rw [List.inj_on_of_nodup_map hpanes (List.mem_of_find?_eq_some hfind) hpane hsame]

theorem threadFate_gone (ht : t.paneId ∉ snap.panes.map (·.paneId)) :
    threadFate projection ctx snap t = snoozeFate ctx (goneFate ctx t) := by
  unfold threadFate
  cases hfind : snap.panes.find? (·.paneId = t.paneId) with
  | none => rfl
  | some pane =>
    have hsame : pane.paneId = t.paneId := by simpa using List.find?_some hfind
    exact absurd (List.mem_map.mpr ⟨pane, List.mem_of_find?_eq_some hfind, hsame⟩) ht

theorem Projection.mem_pendingRequests {p : Projection} {request : RuntimeRequest} :
    request ∈ p.pendingRequests ↔ ∃ row ∈ p.runtimeRequests.rows, row.body = request ∧
      request.status = .pending := by
  unfold pendingRequests pendingRows
  simp only [List.mem_map, List.mem_insertionSort, List.mem_filter, decide_eq_true_eq]
  constructor
  · rintro ⟨row, ⟨hrow, hstatus⟩, rfl⟩
    exact ⟨row, hrow, rfl, hstatus⟩
  · rintro ⟨row, hrow, rfl, hstatus⟩
    exact ⟨row, ⟨hrow, hstatus⟩, rfl⟩

theorem mem_openKinds {threadId : String} {kind : RuntimeRequestKind} :
    kind ∈ openKinds p.herd threadId ↔ ∃ row ∈ p.runtimeRequests.rows, row.body.threadId = threadId ∧
      row.body.status = .pending ∧ row.body.kind = kind := by
  unfold openKinds
  simp only [List.mem_map, List.mem_filter, decide_eq_true_eq]
  constructor
  · rintro ⟨request, ⟨hrequest, hthread⟩, hkind⟩
    obtain ⟨row, hrow, rfl, hstatus⟩ := Projection.mem_pendingRequests.mp hrequest
    exact ⟨row, hrow, hthread, hstatus, hkind⟩
  · rintro ⟨row, hrow, hthread, hstatus, hkind⟩
    exact ⟨row.body, ⟨Projection.mem_pendingRequests.mpr ⟨row, hrow, rfl, hstatus⟩, hthread⟩, hkind⟩

variable {id : String}

theorem AfterDiff.sameKinds (h : AfterDiff p ctx snap p') (hown : OwnThread p.herd snap id) :
    SameKinds p.herd p'.herd id := by
  have hmem (kind : RuntimeRequestKind) : kind ∈ openKinds p'.herd id ↔ kind ∈ openKinds p.herd id := by
    rw [mem_openKinds, mem_openKinds]
    refine exists_congr fun row => ?_
    rw [Table.mem_rows_iff, Table.mem_rows_iff]
    refine ⟨fun ⟨hrow, hthread, hrest⟩ => ⟨?_, hthread, hrest⟩, fun ⟨hrow, hthread, hrest⟩ => ⟨?_, hthread, hrest⟩⟩
    · have howner := h.owners row.id
      rw [hrow, Option.map_some] at howner
      obtain ⟨old, hold, hsame⟩ := Option.map_eq_some_iff.mp howner.symm
      have hkept := h.requests row.id old hold (by rw [hsame, hthread]; exact hown)
      rw [hold, ← Option.some.inj (hkept.symm.trans hrow)]
    · exact h.requests row.id row hrow (hthread ▸ hown)
  unfold SameKinds
  rw [Bool.eq_iff_iff, List.any_eq_true, List.any_eq_true]
  exact exists_congr fun kind => and_congr_left fun _ => hmem kind

theorem AfterDiff.openKinds_new (hsound : p.Sound) (h : AfterDiff p ctx snap p')
    (hnew : id ∉ p.listThreads.map (·.id)) : openKinds p'.herd id = [] := by
  refine List.eq_nil_iff_forall_not_mem.mpr fun kind hkind => ?_
  obtain ⟨row, hrow, hthread, -⟩ := mem_openKinds.mp hkind
  have howner := h.owners row.id
  rw [Table.find?_key hrow, Option.map_some] at howner
  obtain ⟨old, hold, hsame⟩ := Option.map_eq_some_iff.mp howner.symm
  have hthere := hsound.owned old (Table.mem_of_find? hold)
  rw [hsame, hthread] at hthere
  obtain ⟨t, ht⟩ := Option.isSome_iff_exists.mp hthere
  exact hnew (List.mem_map.mpr ⟨t, Projection.mem_listThreads.mpr (Table.mem_of_find? ht), Table.key_of_find? ht⟩)

/-- The thread of a listed pane after a diff: it is archived as it was, for a reason that is not the loss
of its pane, or it is live and in line. -/
theorem SoundDiff.ownRow (h : SoundDiff p ctx snap p') (hlook : SameLook ctx ctx') (hpane : pane ∈ snap.panes) :
    ∃ t' ∈ p'.threads.rows, t'.paneId = pane.paneId ∧ t'.terminalId = pane.terminalId.getD "" ∧
      (t'.shelf = .archived ∧ t'.paneAlive = some true ∧
          (∃ t ∈ p.threads.rows, t.paneId = pane.paneId ∧ t.terminalId = pane.terminalId.getD "" ∧
            t.shelf = .archived ∧ t.archiveReason ≠ some .paneClosed ∧
            t.archiveReason ≠ some .closedWhileDown ∧ t'.archiveReason = t.archiveReason) ∨
        t'.shelf ≠ .archived ∧ InLine p'.herd ctx' pane t' ∧
          ∀ t ∈ p.threads.rows, t.paneId = pane.paneId → t.terminalId = pane.terminalId.getD "" →
            t.shelf = .archived → t.archiveReason = some .paneClosed ∨
              t.archiveReason = some .closedWhileDown) := by
  obtain ⟨own, adopted, hown⟩ : ∃ own adopted, threadOfPane p.herd pane = (own, adopted) := ⟨_, _, rfl⟩
  cases own with
  | none =>
    have hnone := @threadOfPane_none p.herd pane (by rw [hown])
    obtain ⟨i, hi, hmade⟩ := (threadWork_fates h.sound.coherent h.fresh h.panes).1.made pane hpane (by rw [hown])
    have hlive : (createdThread ctx pane (ctx.newId i)).shelf ≠ .archived := by simp [createdThread]
    have hfind := h.threads (ctx.newId i)
    rw [hmade, Option.map_some, storedCopy_of_live hlive] at hfind
    exact ⟨_, Table.mem_of_find? hfind, rfl, rfl, .inr ⟨hlive,
      inLine_createdThread hlook (h.openKinds_new h.sound (h.fresh i hi).2.1), fun t ht htpane hterminal =>
        absurd hterminal (hnone t (Projection.mem_listThreads.mpr ht) htpane)⟩⟩
  | some thread =>
    obtain ⟨hthread, hthreadPane, hthreadTerminal⟩ := threadOfPane_some hown
    set known := knownThread p.herd ctx pane adopted thread with hknown
    have hfate : threadFate p.herd ctx snap thread = snoozeFate ctx known := by
      rw [threadFate_listed h.panes hpane hthreadPane, paneFate_own hown]
    have hrow := h.row_of (Projection.mem_listThreads.mp hthread)
    have hpaneId : (threadFate p.herd ctx snap thread).paneId = pane.paneId :=
      (sameThread_threadFate p.herd ctx snap thread).paneId.trans hthreadPane
    obtain ⟨hfields, hterminal, hshelf⟩ := @snoozeFate_keeps ctx known
    obtain ⟨hknownTerminal, hcases⟩ := @knownThread_cases p.herd ctx pane thread adopted hown
    refine ⟨_, hrow, by simpa using hpaneId, by rw [terminalId_storedCopy, hfate, hterminal, hknownTerminal], ?_⟩
    rcases hcases with ⟨harchived, hclosed, hdown, hkept, hreason, halive⟩ | ⟨hrevived, t, hid, hlive, hupdated⟩
    · left
      rw [hfate, snoozeFate_of_archived hkept]
      refine ⟨by simpa using hkept, by simpa using halive, thread, Projection.mem_listThreads.mp hthread,
        hthreadPane, ?_, harchived, hclosed, hdown, by simpa using hreason⟩
      rcases hthreadTerminal with ⟨-, hsame⟩ | ⟨-, -, -, hnot, -⟩
      · exact hsame
      · exact absurd harchived hnot
    · right
      have hknownLive : known.shelf ≠ .archived := by
        rw [hknown, hupdated]
        exact shelf_updatedThread hlive
      have hfateLive : (threadFate p.herd ctx snap thread).shelf ≠ .archived := by
        rw [hfate]
        exact fun harchived => hknownLive (hshelf.mp harchived)
      have hkinds : SameKinds p.herd p'.herd t.id := by
        rw [hid]
        exact h.sameKinds ⟨pane, hpane, thread, by rw [hown], rfl⟩
      have hline := @inLine_updatedThread p.herd p'.herd ctx ctx' pane adopted t hlook hkinds
      rw [← hupdated] at hline
      rw [storedCopy_of_live hfateLive, hfate]
      refine ⟨hfate ▸ hfateLive, hline.of_fields hfields, fun s hs hspane hsterminal harchived => ?_⟩
      rcases hthreadTerminal with ⟨-, hsame⟩ | ⟨-, -, -, -, hnone⟩
      · obtain rfl := h.sound.apart s hs thread (Projection.mem_listThreads.mp hthread)
          (hspane.trans hthreadPane.symm) (hsterminal.trans hsame.symm)
        exact hrevived harchived
      · exact absurd hsterminal (hnone s (Projection.mem_listThreads.mpr hs) hspane)

theorem SoundDiff.otherRows (h : SoundDiff p ctx snap p') (hsound' : p'.Sound) (hpane : pane ∈ snap.panes)
    {s' : ServerThread} (ht' : t' ∈ p'.threads.rows) (htpane : t'.paneId = pane.paneId)
    (htterminal : t'.terminalId = pane.terminalId.getD "") (hs' : s' ∈ p'.threads.rows)
    (hspane : s'.paneId = pane.paneId) (hne : s' ≠ t') : s'.shelf = .archived := by
  have hterminal : s'.terminalId ≠ pane.terminalId.getD "" := fun hsame =>
    hne (hsound'.apart s' hs' t' ht' (hspane.trans htpane.symm) (hsame.trans htterminal.symm))
  rcases h.row_cases hs' with ⟨s, hs, rfl⟩ | ⟨other, hother, -, i, -, rfl⟩
  · have hsamePane : s.paneId = pane.paneId := by
      rw [← hspane, paneId_storedCopy]
      exact (sameThread_threadFate p.herd ctx snap s).paneId.symm
    rw [threadFate_listed h.panes hpane hsamePane] at hterminal ⊢
    obtain ⟨-, hkept, hshelf⟩ := @snoozeFate_keeps ctx (paneFate p.herd ctx pane s)
    rw [shelf_storedCopy, hshelf]
    rw [terminalId_storedCopy, hkept] at hterminal
    obtain ⟨own, adopted, hown⟩ : ∃ own adopted, threadOfPane p.herd pane = (own, adopted) := ⟨_, _, rfl⟩
    by_cases hsame : own.any (·.id = s.id) = true
    · obtain ⟨thread, rfl, hid⟩ := (Option.any_eq_true _ _).mp hsame
      obtain ⟨hthread, -⟩ := threadOfPane_some hown
      obtain rfl := h.sound.coherent.eq_of_id hthread (Projection.mem_listThreads.mpr hs) (by simpa using hid)
      rw [paneFate_own hown] at hterminal
      exact absurd (@knownThread_cases p.herd ctx pane thread adopted hown).1 hterminal
    · unfold paneFate
      simp only [hown, if_neg hsame]
      split_ifs with harchived
      · exact harchived
      · rfl
  · obtain rfl := List.inj_on_of_nodup_map h.panes hother hpane hspane
    exact absurd rfl hterminal

end

end Sightr
