import Sightr.Herd.Listed

/-!
# Reconciles settle

With the same snapshot, clock, ledger and branches, a first reconcile brings every listed pane's thread
and every workspace's project in line, a second one archives the threads and closes the projects that it
misses for the second time, and from then on a diff has no events.
-/

namespace Sightr

open Keyed (Table)

/-! ### Statuses rolled up -/

theorem THREAD_STATUS_RANK_injective : Function.Injective THREAD_STATUS_RANK := by
  intro a b h
  cases a <;> cases b <;> first | rfl | cases h

theorem worst_spec (first : ThreadStatus) (list : List ThreadStatus) : worstStatus (first :: list) ∈ first :: list ∧
      ∀ s ∈ first :: list, THREAD_STATUS_RANK (worstStatus (first :: list)) ≤ THREAD_STATUS_RANK s := by
  induction list generalizing first with
  | nil => simp [worstStatus]
  | cons s list ih =>
    set worst := if THREAD_STATUS_RANK s < THREAD_STATUS_RANK first then s else first with hworst
    have hmem : worst ∈ [first, s] := by
      rw [hworst]
      split_ifs <;> simp
    have hle : THREAD_STATUS_RANK worst ≤ THREAD_STATUS_RANK first ∧
        THREAD_STATUS_RANK worst ≤ THREAD_STATUS_RANK s := by
      rw [hworst]
      split_ifs <;> constructor <;> omega
    obtain ⟨hin, hbelow⟩ := ih worst
    have hstep : worstStatus (first :: s :: list) = worstStatus (worst :: list) := rfl
    rw [hstep]
    refine ⟨?_, fun u hu => ?_⟩
    · rcases List.mem_cons.mp hin with heq | hin
      · rw [heq]
        rcases List.mem_cons.mp hmem with heq | hmem
        · simp [heq]
        · simp [List.mem_singleton.mp hmem]
      · simp [hin]
    · have hworst' := hbelow worst (by simp)
      rcases List.mem_cons.mp hu with rfl | hu
      · exact hworst'.trans hle.1
      · rcases List.mem_cons.mp hu with rfl | hu
        · exact hworst'.trans hle.2
        · exact hbelow u (by simp [hu])

theorem worstStatus_congr {l l' : List ThreadStatus} (h : ∀ s, s ∈ l ↔ s ∈ l') : worstStatus l = worstStatus l' := by
  cases l with
  | nil =>
    cases l' with
    | nil => rfl
    | cons s l' => exact absurd ((h s).mpr (by simp)) List.not_mem_nil
  | cons first l =>
    cases l' with
    | nil => exact absurd ((h first).mp (by simp)) List.not_mem_nil
    | cons first' l' =>
      obtain ⟨hin, hbelow⟩ := worst_spec first l
      obtain ⟨hin', hbelow'⟩ := worst_spec first' l'
      exact THREAD_STATUS_RANK_injective (Nat.le_antisymm (hbelow _ ((h _).mpr hin')) (hbelow' _ ((h _).mp hin)))

theorem rollUp_congr {l l' : List ServerThread} (projectId : String)
    (h : ∀ t ∈ l, ∃ s ∈ l', s.shelf = t.shelf ∧ s.projectId = t.projectId ∧ s.status = t.status)
    (h' : ∀ s ∈ l', ∃ t ∈ l, t.shelf = s.shelf ∧ t.projectId = s.projectId ∧ t.status = s.status) :
    rollUp l projectId = rollUp l' projectId := by
  have hsub : ∀ {l l' : List ServerThread},
      (∀ t ∈ l, ∃ s ∈ l', s.shelf = t.shelf ∧ s.projectId = t.projectId ∧ s.status = t.status) →
      ∀ status, status ∈ (l.filter fun t =>
        (t.shelf = .active || t.shelf = .pinned) && t.projectId = projectId).map (·.status) →
      status ∈ (l'.filter fun t =>
        (t.shelf = .active || t.shelf = .pinned) && t.projectId = projectId).map (·.status) := by
    intro l l' h status hstatus
    obtain ⟨t, ht, rfl⟩ := List.mem_map.mp hstatus
    obtain ⟨hmem, htest⟩ := List.mem_filter.mp ht
    obtain ⟨s, hs, hshelf, hproject, hsame⟩ := h t hmem
    refine List.mem_map.mpr ⟨s, List.mem_filter.mpr ⟨hs, ?_⟩, hsame⟩
    rw [hshelf, hproject]
    exact htest
  exact worstStatus_congr fun status => ⟨hsub h status, hsub h' status⟩

/-! ### A settled state -/

/-- A thread that is still being spawned, for the herd may not list its pane yet. -/
def InGrace (ctx : HerdDiffContext) (t : ServerThread) : Prop :=
  t.status = .starting ∧ ctx.now - t.updatedAt < STARTING_GRACE_MS

/-- The thread of a listed pane is as the diff wants it. -/
structure PaneSettled (p : Projection) (ctx : HerdDiffContext) (pane : AgentView) : Prop where
  own : ∃ t ∈ p.threads.rows, t.paneId = pane.paneId ∧ t.terminalId = pane.terminalId.getD "" ∧
    (t.shelf = .archived ∧ t.paneAlive = some true ∧ t.archiveReason ≠ some .paneClosed ∧
        t.archiveReason ≠ some .closedWhileDown ∨
      t.shelf ≠ .archived ∧ InLine p.herd ctx pane t) ∧
    ∀ s ∈ p.threads.rows, s.paneId = pane.paneId → s ≠ t → s.shelf = .archived

/-- What a diff leaves of threads and projects, but for those it misses. -/
structure Looked (p : Projection) (ctx : HerdDiffContext) (snap : EngineSnapshot) : Prop where
  panes : ∀ pane ∈ snap.panes, PaneSettled p ctx pane
  closed : ∀ t ∈ p.threads.rows, t.paneId ∉ snap.panes.map (·.paneId) → t.shelf = .archived →
    t.archiveReason = some .user → t.paneAlive = some false
  snoozes : ∀ t ∈ p.threads.rows, snoozeFate ctx t = t
  live : ∀ w ∈ (desiredWorkspaces ctx snap).rows, ∃ project, p.projects.find? w.id = some project ∧
    sameProject project (desiredProject (some project) w (rollUp p.listThreads w.id)) = true
  gone : ∀ project ∈ p.projects.rows, project.id ∉ (desiredWorkspaces ctx snap).rows.map (·.id) →
    project.status = rollUp p.listThreads project.id

structure Settled (p : Projection) (ctx : HerdDiffContext) (snap : EngineSnapshot) : Prop
    extends Looked p ctx snap where
  threads : ∀ t ∈ p.threads.rows, t.paneId ∉ snap.panes.map (·.paneId) → t.shelf ≠ .archived → InGrace ctx t
  projects : ∀ project ∈ p.projects.rows, project.id ∉ (desiredWorkspaces ctx snap).rows.map (·.id) →
    project.closedAt ≠ none

/-! ### A settled state has no events -/

section

variable {p : Projection} {ctx : HerdDiffContext} {snap : EngineSnapshot}

section

variable (hsound : p.Sound)
include hsound

end

end

/-! ### What one reconcile leaves -/

section

variable {p p' : Projection} {ctx ctx' : HerdDiffContext} {snap : EngineSnapshot}

theorem snoozeFate_storedCopy (hlook : SameLook ctx ctx') (t : ServerThread) :
    snoozeFate ctx' (storedCopy (snoozeFate ctx t)) = storedCopy (snoozeFate ctx t) := by
  obtain ⟨newId, first, missingThreads, missingProjects, rfl⟩ := hlook
  have hnot : ¬ ((snoozeFate ctx t).shelf = .snoozed ∧ (snoozeFate ctx t).snoozedUntil.any (· ≤ ctx.now) = true) := by
    unfold snoozeFate
    split_ifs with hdue
    · simp [ThreadOf.reshelved]
    · exact hdue
  by_cases harchived : (snoozeFate ctx t).shelf = .archived
  · exact snoozeFate_of_archived (by simpa using harchived)
  · rw [storedCopy_of_live harchived]
    exact if_neg hnot

theorem rollUp_afterDiff (h : AfterDiff p ctx snap p') (id : String) :
    rollUp (threadWork p.herd ctx snap).1.next.rows id = rollUp p'.listThreads id := by
  refine rollUp_congr id (fun t ht => ?_) fun t' ht' => ?_
  · have hfind := h.threads t.id
    rw [Table.find?_key ht, Option.map_some] at hfind
    refine ⟨storedCopy t, Projection.mem_listThreads.mpr (Table.mem_of_find? hfind), by simp, ?_, ?_⟩ <;>
      unfold storedCopy <;> split_ifs <;> rfl
  · have hfind := h.threads t'.id
    rw [Table.find?_key (Projection.mem_listThreads.mp ht')] at hfind
    obtain ⟨t, ht, rfl⟩ := Option.map_eq_some_iff.mp hfind.symm
    refine ⟨t, Table.mem_of_find? ht, by simp, ?_, ?_⟩ <;> unfold storedCopy <;> split_ifs <;> rfl

theorem sameProject_liveProject {existing : Option Project} {w : DesiredWorkspace}
    {threads threads' : List ServerThread} (hroll : rollUp threads w.id = rollUp threads' w.id) :
    sameProject (liveProject existing w threads)
      (desiredProject (some (liveProject existing w threads)) w (rollUp threads' w.id)) = true := by
  unfold liveProject
  dsimp only
  rw [hroll]
  set desired := desiredProject existing w (rollUp threads' w.id) with hdesired
  cases hfilter : existing.filter (sameProject · desired) with
  | some project =>
    obtain ⟨rfl, hsame⟩ := Option.filter_eq_some_iff.mp hfilter
    exact hsame
  | none =>
    rw [Option.getD_none]
    have hagain : desiredProject (some desired) w (rollUp threads' w.id) = desired := by
      cases existing with
      | none => rfl
      | some project =>
        by_cases huser : project.labelSource = .user
        · simp [hdesired, desiredProject, huser, Option.filter_some]
        · have hherd : project.labelSource = .herd := by
            cases hsource : project.labelSource with
            | herd => rfl
            | user => exact absurd hsource huser
          simp [hdesired, desiredProject, hherd, Option.filter_some]
    rw [hagain]
    simp [sameProject]

section

variable (h : SoundDiff p ctx snap p')
include h

theorem SoundDiff.goneRow {t' : ServerThread} (ht' : t' ∈ p'.threads.rows)
    (hgone : t'.paneId ∉ snap.panes.map (·.paneId)) :
    ∃ t ∈ p.threads.rows, t.id = t'.id ∧ t.paneId = t'.paneId ∧
      t' = storedCopy (snoozeFate ctx (goneFate ctx t)) := by
  rcases h.row_cases ht' with ⟨t, ht, rfl⟩ | ⟨pane, hpane, -, i, -, rfl⟩
  · have hsame := sameThread_threadFate p.herd ctx snap t
    rw [paneId_storedCopy, hsame.paneId] at hgone
    refine ⟨t, ht, by rw [id_storedCopy, hsame.id], by rw [paneId_storedCopy, hsame.paneId], ?_⟩
    rw [threadFate_gone hgone]
  · exact absurd (List.mem_map.mpr ⟨pane, hpane, rfl⟩) hgone

theorem SoundDiff.looked (hsound' : p'.Sound) (hlook : SameLook ctx ctx') : Looked p' ctx' snap where
  panes pane hpane := by
    obtain ⟨t', ht', htpane, htterminal, hcase⟩ := h.ownRow hlook hpane
    refine ⟨t', ht', htpane, htterminal, ?_, fun s hs hspane hne =>
      h.otherRows hsound' hpane ht' htpane htterminal hs hspane hne⟩
    rcases hcase with ⟨harchived, halive, t, -, -, -, -, hclosed, hdown, hreason⟩ | ⟨hlive, hline, -⟩
    · exact .inl ⟨harchived, halive, hreason ▸ hclosed, hreason ▸ hdown⟩
    · exact .inr ⟨hlive, hline⟩
  closed t' ht' hgone harchived huser := by
    obtain ⟨t, -, -, -, rfl⟩ := h.goneRow ht' hgone
    rw [shelf_storedCopy, (snoozeFate_keeps _).2.2] at harchived
    rw [archiveReason_storedCopy, snoozeFate_of_archived harchived] at huser
    rw [paneAlive_storedCopy, snoozeFate_of_archived harchived]
    unfold goneFate at harchived huser ⊢
    split_ifs at harchived huser ⊢ with hold hopen hfirst hgrace hmissing
    · rfl
    · by_contra halive
      exact hopen ⟨huser, halive⟩
    · cases huser
    · exact absurd harchived hold
    · cases huser
    · exact absurd harchived hold
  snoozes t' ht' := by
    rcases h.row_cases ht' with ⟨t, -, rfl⟩ | ⟨pane, -, -, i, -, rfl⟩
    · unfold threadFate
      exact snoozeFate_storedCopy hlook _
    · unfold snoozeFate
      exact if_neg fun hdue => by simp [createdThread] at hdue
  live w hw := by
    obtain ⟨newId, first, missingThreads, missingProjects, rfl⟩ := hlook
    exact ⟨_, h.live w hw, sameProject_liveProject (rollUp_afterDiff h.toAfterDiff w.id)⟩
  gone project hproject hout := by
    obtain ⟨newId, first, missingThreads, missingProjects, rfl⟩ := hlook
    have hfind := Table.find?_key hproject
    cases hold : p.projects.find? project.id with
    | none => cases (h.others _ hout hold).symm.trans hfind
    | some existing =>
      obtain ⟨hmem, hid⟩ := Table.find?_eq_some_iff.mp hold
      have hgone := h.gone existing hmem (hid ▸ hout)
      rw [hid, hfind] at hgone
      have hstatus : project.status = rollUp (threadWork p.herd ctx snap).1.next.rows existing.id := by
        rw [Option.some.inj hgone]
        rfl
      rw [hstatus, rollUp_afterDiff h.toAfterDiff, hid]

/-- A live thread whose pane is gone, after a reconcile: it is still being spawned, or it was missed for
the first time. -/
theorem SoundDiff.missed {t' : ServerThread} (ht' : t' ∈ p'.threads.rows)
    (hgone : t'.paneId ∉ snap.panes.map (·.paneId)) (hlive : t'.shelf ≠ .archived) : InGrace ctx t' ∨
      t'.id ∈ (threadWork p.herd ctx snap).2 ∧
      ∃ t ∈ p.threads.rows, t.id = t'.id ∧ t.paneId = t'.paneId ∧ t.shelf ≠ .archived ∧ ¬ InGrace ctx t ∧
        t.id ∉ ctx.missingThreads := by
  obtain ⟨t, ht, hid, hpane, rfl⟩ := h.goneRow ht' hgone
  have hfateLive : (goneFate ctx t).shelf ≠ .archived := by
    rwa [shelf_storedCopy, ne_eq, (snoozeFate_keeps _).2.2] at hlive
  have hsnoozeLive : (snoozeFate ctx (goneFate ctx t)).shelf ≠ .archived := by
    rwa [shelf_storedCopy] at hlive
  rw [storedCopy_of_live hsnoozeLive] at hid hpane ⊢
  have hold : t.shelf ≠ .archived := by
    intro harchived
    refine hfateLive ?_
    unfold goneFate
    rw [if_pos harchived]
    split_ifs <;> exact harchived
  by_cases hfirst : ctx.first = true
  · refine absurd ?_ hfateLive
    unfold goneFate
    rw [if_neg hold, if_pos hfirst]
    rfl
  by_cases hgrace : t.status = .starting ∧ ctx.now - t.updatedAt < STARTING_GRACE_MS
  · left
    have hfate : goneFate ctx t = t := by
      unfold goneFate
      rw [if_neg hold, if_neg hfirst, if_pos hgrace]
    rw [hfate]
    unfold snoozeFate
    split_ifs
    · refine ⟨hgrace.1, ?_⟩
      simp [ThreadOf.reshelved, STARTING_GRACE_MS]
    · exact hgrace
  by_cases hmissing : t.id ∈ ctx.missingThreads
  · refine absurd ?_ hfateLive
    unfold goneFate
    rw [if_neg hold, if_neg hfirst, if_neg hgrace, if_pos hmissing]
    rfl
  · right
    refine ⟨?_, t, ht, hid, hpane, hold, hgrace, hmissing⟩
    rw [(threadWork_fates h.sound.coherent h.fresh h.panes).2, ← hid]
    refine List.mem_map.mpr ⟨t, List.mem_filter.mpr ⟨Projection.mem_listThreads.mpr ht, ?_⟩, rfl⟩
    have hnot : t.paneId ∉ snap.panes.map (·.paneId) := by
      rw [hpane]
      rwa [storedCopy_of_live hsnoozeLive] at hgone
    simp [newlyMissing, hold, hnot, hfirst, hgrace, hmissing]

end

theorem AfterDiff.missedProject (h : AfterDiff p ctx snap p') {project : Project}
    (hproject : project ∈ p'.projects.rows)
    (hout : project.id ∉ (desiredWorkspaces ctx snap).rows.map (·.id)) (hopen : project.closedAt = none) :
    project.id ∈ missingProjects p.herd ctx (desiredWorkspaces ctx snap).rows ∧
      ∃ existing ∈ p.projects.rows, existing.id = project.id ∧ existing.closedAt = none ∧
        existing.id ∉ ctx.missingProjects := by
  have hfind := Table.find?_key hproject
  cases hold : p.projects.find? project.id with
  | none => cases (h.others _ hout hold).symm.trans hfind
  | some existing =>
    obtain ⟨hmem, hid⟩ := Table.find?_eq_some_iff.mp hold
    have hid : existing.id = project.id := hid
    have hgone := h.gone existing hmem (hid ▸ hout)
    have hgone' : project = goneProject ctx (threadWork p.herd ctx snap).1.next.rows existing := by
      rw [hid, hfind] at hgone
      exact Option.some.inj hgone
    have hclosed : (goneProject ctx (threadWork p.herd ctx snap).1.next.rows existing).closedAt =
      none := hgone' ▸ hopen
    unfold goneProject at hclosed
    dsimp only at hclosed
    split_ifs at hclosed with hclose
    have hnot : ¬ (ctx.first = true ∨ existing.id ∈ ctx.missingProjects) := fun hc => hclose ⟨hclosed, hc⟩
    refine ⟨?_, existing, hmem, hid, hclosed, fun hc => hnot (.inr hc)⟩
    unfold missingProjects
    refine List.mem_map.mpr ⟨existing, List.mem_filter.mpr ⟨Projection.mem_listProjects.mpr hmem, ?_⟩, hid⟩
    have hout' : existing.id ∉ (desiredWorkspaces ctx snap).rows.map (·.id) := hid ▸ hout
    simpa [hclosed, hnot] using hout'

theorem SoundDiff.settled (h : SoundDiff p ctx snap p') (hsound' : p'.Sound) (hlook : SameLook ctx ctx')
    (hthreads : ∀ t ∈ p.threads.rows, t.paneId ∉ snap.panes.map (·.paneId) → t.shelf ≠ .archived →
      InGrace ctx t ∨ t.id ∈ ctx.missingThreads)
    (hprojects : ∀ project ∈ p.projects.rows, project.id ∉ (desiredWorkspaces ctx snap).rows.map (·.id) →
      project.closedAt = none → project.id ∈ ctx.missingProjects) : Settled p' ctx' snap where
  toLooked := h.looked hsound' hlook
  threads t' ht' hgone hlive := by
    obtain ⟨newId, first, missingThreads, missingProjects, rfl⟩ := hlook
    rcases h.missed ht' hgone hlive with hgrace | ⟨-, t, ht, -, hpane, hold, hnot, hmissing⟩
    · exact hgrace
    · rcases hthreads t ht (hpane ▸ hgone) hold with hgrace | hknown
      · exact absurd hgrace hnot
      · exact absurd hknown hmissing
  projects project hproject hout hopen := by
    obtain ⟨newId, first, missingThreads, missingProjects, rfl⟩ := hlook
    obtain ⟨-, existing, hexisting, hid, hopen', hmissing⟩ := h.missedProject hproject hout hopen
    exact hmissing (hprojects existing hexisting (hid ▸ hout) hopen')

end

/-! ### One reconcile after another -/

namespace HerdWorld

section

variable {w : HerdWorld} {snap : EngineSnapshot} {ctx : HerdDiffContext}

end

end HerdWorld

end Sightr
