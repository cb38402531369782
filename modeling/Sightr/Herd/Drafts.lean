import Sightr.Herd.World

/-!
# What the writers can say

Every draft of `diffHerd` is of one of a few kinds: a project, a thread made from a pane, a patch, a move
to the active shelf, an archive, or what an archive closes with its thread. Neither a made thread nor a
patch is `starting`. The other writers make no thread, but for a spawn.
-/

namespace Sightr

/-! ### Statuses -/

theorem threadStatusFor_ne_starting (herd : AgentStatus) (unreadDone : Bool)
    (openKinds : List RuntimeRequestKind) (previous : Option ThreadStatus) :
    threadStatusFor herd unreadDone openKinds previous ≠ .starting := by
  unfold threadStatusFor
  intro h
  split at h
  · cases h
  · split_ifs at h
  · split_ifs at h

theorem changed_eq_val {α : Type} [DecidableEq α] {old new a : α} :
    changed old new = .val a ↔ old ≠ new ∧ new = a := by
  unfold changed
  split_ifs with h <;> simp [h]

theorem status_panePatch_ne (projection : HerdProjection) (ctx : HerdDiffContext) (pane : AgentView)
    (adopted : Bool) (current : ServerThread) :
    (panePatch projection ctx pane adopted current).status ≠ .val .starting := by
  intro h
  obtain ⟨hne, hstarting⟩ := changed_eq_val.mp h
  unfold paneStatus at hne hstarting
  split_ifs at hne hstarting
  · exact hne rfl
  · exact threadStatusFor_ne_starting _ _ _ _ hstarting

/-! ### Drafts -/

def HerdDraft (ctx : HerdDiffContext) (draft : EventDraft) : Prop :=
  match draft.payload with
  | .projectUpserted _ | .projectClosed .. | .threadArchived .. | .runEnded ..
  | .runtimeRequestUpdated .. | .turnItemUpdated _ => True
  | .threadCreated thread => ∃ pane i, thread = createdThread ctx pane (ctx.newId i)
  | .threadUpdated patch _ => patch.status ≠ .val .starting
  | .threadShelfChanged shelf _ _ _ => shelf = .active
  | _ => False

/-- The blocks a diff's events are made of, for the projection it compares: an archive's block ends a run that
is open in it, or expires a request that is pending in it. -/
inductive HerdBlock (projection : HerdProjection) (ctx : HerdDiffContext) : List EventDraft → Prop
  | project (project : Project) : HerdBlock projection ctx [{ payload := .projectUpserted project }]
  | closed (projectId : String) : HerdBlock projection ctx [{ payload := .projectClosed projectId ctx.now }]
  | created (pane : AgentView) (i : Nat) : HerdBlock projection ctx
      [{ threadId := some (ctx.newId i), payload := .threadCreated (createdThread ctx pane (ctx.newId i)) }]
  | patched (threadId : String) (patch : ServerThreadPatch) (hpatch : patch.status ≠ .val .starting) :
    HerdBlock projection ctx [{ threadId := some threadId, payload := .threadUpdated patch ctx.now }]
  | active (threadId : String) : HerdBlock projection ctx
      [{ threadId := some threadId, payload := .threadShelfChanged .active none none ctx.now }]
  | ended (run : Run) (hrun : run ∈ projection.openRuns) : HerdBlock projection ctx
      [{ threadId := some run.threadId, payload := .runEnded run.id .interrupted ctx.now }]
  | expired (request : RuntimeRequest) (hrequest : request ∈ projection.pendingRequests) : HerdBlock projection ctx
      (requestEvents ctx.requestJson { request with status := .expired, updatedAt := ctx.now })
  | archived (threadId : String) (reason : ArchiveReason) :
    HerdBlock projection ctx [{ threadId := some threadId, payload := .threadArchived reason ctx.now }]

open Fold (Blocks)

namespace HerdWork

variable {projection : HerdProjection} {ctx : HerdDiffContext}

def Drafts (projection : HerdProjection) (ctx : HerdDiffContext) (w : HerdWork) : Prop :=
  Blocks (HerdBlock projection ctx) w.events

@[simp] theorem events_modify (w : HerdWork) (threadId : String) (f : ServerThread → ServerThread) :
    (w.modify threadId f).events = w.events := by
  unfold modify
  split <;> rfl

variable {w : HerdWork}

section

variable (h : w.Drafts projection ctx)
include h

theorem Drafts.claim (threadId : String) : (w.claim threadId).Drafts projection ctx := h

private theorem Drafts.push {threadId : String} {payload : ServerPayload}
    (hblock : HerdBlock projection ctx [{ threadId := some threadId, payload }]) :
    (w.push threadId payload).Drafts projection ctx :=
  Blocks.append h (.of hblock)

theorem Drafts.modify (threadId : String) (f : ServerThread → ServerThread) :
    (w.modify threadId f).Drafts projection ctx := by
  rwa [Drafts, events_modify]

end

section

variable {w : HerdWork}

section

variable (h : w.Drafts projection ctx)
include h

theorem Drafts.patch {threadId : String} {p : ServerThreadPatch} (hp : p.status ≠ .val .starting) :
    (w.patch ctx.now threadId p).Drafts projection ctx :=
  (Drafts.push h (.patched threadId p hp)).modify threadId _

theorem Drafts.shelfActive (threadId : String) : (w.shelfActive ctx.now threadId).Drafts projection ctx :=
  (Drafts.push h (.active threadId)).modify threadId _

theorem Drafts.archive (threadId : String) (reason : ArchiveReason) :
    (w.archive ctx.now projection ctx.requestJson threadId reason).Drafts projection ctx := by
  unfold HerdWork.archive
  dsimp only
  have hruns : Blocks (HerdBlock projection ctx) ((projection.openRuns.filter (·.threadId = threadId)).map
      fun run => { threadId := some threadId, payload := .runEnded run.id .interrupted ctx.now }) := by
    rw [List.map_eq_flatMap]
    refine .flatMap fun run hrun => .of ?_
    obtain ⟨hopen, hthread⟩ := List.mem_filter.mp hrun
    rw [← of_decide_eq_true hthread]
    exact .ended run hopen
  have hrequests : Blocks (HerdBlock projection ctx)
      ((projection.pendingRequests.filter (·.threadId = threadId)).flatMap fun request =>
        requestEvents ctx.requestJson { request with status := .expired, updatedAt := ctx.now }) :=
    .flatMap fun request hrequest => .of (.expired request (List.mem_filter.mp hrequest).1)
  have hclosed := (Blocks.append h hruns).append hrequests
  have harchived := Drafts.modify (Drafts.push (w := { w with events := _ }) hclosed (.archived threadId reason))
    threadId fun t =>
      { t with shelf := .archived, archivedAt := some ctx.now, archiveReason := some reason, updatedAt := ctx.now }
  split_ifs
  · exact harchived.patch (by simp)
  · exact harchived

theorem Drafts.archiveAll (reason : ArchiveReason) (threads : List ServerThread) :
    (w.archiveAll ctx.now projection ctx.requestJson reason threads).Drafts projection ctx := by
  induction threads generalizing w with
  | nil => exact h
  | cons other threads ih => exact ih ((h.claim other.id).archive other.id reason)

end

end

end HerdWork

/-! ### The loops -/

section

variable {projection : HerdProjection} {ctx : HerdDiffContext}

open HerdWork

variable {w : HerdWork}

section

variable (h : w.Drafts projection ctx)
include h

theorem drafts_updateThread (pane : AgentView) (adopted : Bool) (threadId : String) :
    (updateThread projection ctx w pane adopted threadId).Drafts projection ctx := by
  unfold updateThread
  cases w.next.find? threadId with
  | none => exact h
  | some current =>
    dsimp only
    have hpatched : (if panePatch projection ctx pane adopted current ≠ {} then
        w.patch ctx.now threadId (panePatch projection ctx pane adopted current) else w).Drafts projection ctx := by
      split_ifs
      · exact h.patch (status_panePatch_ne _ _ _ _ _)
      · exact h
    by_cases hback : (current.shelf = .snoozed ∨ current.shelf = .settled) ∧ current.status = .working ∧
        paneStatus projection ctx pane current ≠ .working
    · rw [if_pos hback]
      exact hpatched.shelfActive _
    · rw [if_neg hback]
      exact hpatched

theorem drafts_knownPane (pane : AgentView) (adopted : Bool) (thread : ServerThread) :
    (knownPane projection ctx w pane adopted thread).Drafts projection ctx := by
  unfold knownPane
  dsimp only
  have hclaim := h.claim thread.id
  split_ifs
  · exact hclaim.patch (by simp)
  · exact hclaim
  · exact drafts_updateThread (hclaim.shelfActive _) pane adopted thread.id
  · exact drafts_updateThread hclaim pane adopted thread.id

theorem drafts_paneStep (pane : AgentView) : (paneStep projection ctx w pane).Drafts projection ctx := by
  unfold paneStep
  obtain ⟨found, adopted⟩ := threadOfPane projection pane
  have hothers : (w.archiveAll ctx.now projection ctx.requestJson .terminalReplaced
      ((onPane projection pane.paneId).filter fun other => found.all (other.id ≠ ·.id))).Drafts projection ctx :=
    h.archiveAll _ _
  cases found with
  | some thread => exact drafts_knownPane hothers pane adopted thread
  | none => exact Blocks.append hothers (.of (.created pane _))

end

variable {live : List String}

theorem drafts_missingStep {s : HerdWork × List String} (h : s.1.Drafts projection ctx) (thread : ServerThread) :
    (missingStep projection ctx live s thread).1.Drafts projection ctx := by
  obtain ⟨w, missing⟩ := s
  unfold missingStep
  dsimp only
  split_ifs
  · exact h
  · exact HerdWork.Drafts.archive h _ _
  · exact h
  · exact HerdWork.Drafts.archive h _ _
  · exact h

theorem drafts_closedStep (h : w.Drafts projection ctx) (thread : ServerThread) :
    (closedStep ctx live w thread).Drafts projection ctx := by
  unfold closedStep
  split_ifs
  · exact h
  · exact h.patch (by simp)

theorem drafts_snoozeStep (h : w.Drafts projection ctx) (thread : ServerThread) :
    (snoozeStep ctx w thread).Drafts projection ctx := by
  unfold snoozeStep
  split_ifs
  · exact HerdWork.Drafts.shelfActive h _
  · exact h

theorem drafts_threadWork (snap : EngineSnapshot) : (threadWork projection ctx snap).1.Drafts projection ctx := by
  unfold threadWork
  dsimp only
  have hpanes : (snap.panes.foldl (paneStep projection ctx) (startWork projection)).Drafts projection ctx :=
    List.foldlRecOn _ _ Blocks.nil fun _ h pane _ => drafts_paneStep h pane
  have hmissing := List.foldlRecOn (motive := fun s : HerdWork × List String => s.1.Drafts projection ctx)
    projection.threads (missingStep projection ctx (snap.panes.map (·.paneId)))
    (b := (snap.panes.foldl (paneStep projection ctx) (startWork projection), [])) hpanes
    fun _ h thread _ => drafts_missingStep h thread
  have hclosed := List.foldlRecOn projection.threads (closedStep ctx (snap.panes.map (·.paneId))) hmissing
    fun _ h thread _ => drafts_closedStep h thread
  exact List.foldlRecOn _ _ hclosed fun _ h thread _ => drafts_snoozeStep h thread

theorem diffHerd_blocks (snap : EngineSnapshot) :
    Blocks (HerdBlock projection ctx) (diffHerd projection ctx snap).events := by
  have hproject (project : Project) : Blocks (HerdBlock projection ctx) [{ payload := .projectUpserted project }] :=
    .of (.project project)
  refine (Blocks.append ?_ (drafts_threadWork snap)).append ?_
  · refine .of_forall fun draft hdraft => ?_
    obtain ⟨w, -, hw⟩ := List.mem_filterMap.mp hdraft
    dsimp only at hw
    split_ifs at hw
    cases hw
    exact .project _
  · refine .flatMap fun existing _ => .append ?_ ?_ <;> split_ifs
    · exact hproject _
    · exact .nil
    · exact .of (.closed existing.id)
    · exact .nil

theorem diffHerd_drafts {snap : EngineSnapshot} :
    ∀ draft ∈ (diffHerd projection ctx snap).events, HerdDraft ctx draft := by
  refine (diffHerd_blocks snap).forall_mem fun b hb draft hdraft => ?_
  cases hb with
  | expired request _ =>
    simp only [requestEvents, List.mem_cons, List.not_mem_nil, or_false] at hdraft
    rcases hdraft with rfl | rfl <;> trivial
  | created pane i =>
    rw [List.mem_singleton.mp hdraft]
    exact ⟨pane, i, rfl⟩
  | patched threadId patch hpatch =>
    rw [List.mem_singleton.mp hdraft]
    exact hpatch
  | _ =>
    rw [List.mem_singleton.mp hdraft]
    trivial

end

/-! ### The other writers -/

/-- A draft that makes no thread and moves none to another terminal, to a shelf without its fields or to
`starting`. -/
def PlainDraft (draft : EventDraft) : Prop :=
  match draft.payload with
  | .threadCreated _ => False
  | .threadUpdated patch _ => patch.status ≠ .val .starting ∧ patch.terminalId = .absent
  | .threadShelfChanged shelf snoozedUntil _ _ =>
    shelf ≠ .archived ∧ (shelf = .snoozed → snoozedUntil.isSome = true)
  | _ => True

def AllPlain (drafts : List EventDraft) : Prop := ∀ draft ∈ drafts, PlainDraft draft

theorem allPlain_nil : AllPlain [] := by simp [AllPlain]

variable {draft : EventDraft} {drafts : List EventDraft}

theorem allPlain_cons : AllPlain (draft :: drafts) ↔ PlainDraft draft ∧ AllPlain drafts := List.forall_mem_cons

theorem allPlain_append {drafts' : List EventDraft} :
    AllPlain (drafts ++ drafts') ↔ AllPlain drafts ∧ AllPlain drafts' :=
  List.forall_mem_append

variable {threadId : String}

theorem allPlain_accept {payload : ServerPayload} :
    AllPlain (Decision.accept threadId payload).events ↔ PlainDraft { threadId := some threadId, payload } := by
  simp [AllPlain, Decision.accept, Decision.events]

variable {state : DecideState}

theorem allPlain_decideProject {projectId : String} {f : Project → Decision}
    (hf : ∀ project, AllPlain (f project).events) :
    AllPlain (decideProject state projectId f).events := by
  unfold decideProject
  split
  · exact allPlain_nil
  · split_ifs
    · exact allPlain_nil
    · exact hf _

theorem allPlain_decideThread {f : ServerThread → Decision} (hf : ∀ thread, AllPlain (f thread).events) :
    AllPlain (decideThread state threadId f).events := by
  unfold decideThread
  split
  · exact allPlain_nil
  · split_ifs
    · exact allPlain_nil
    · exact hf _

theorem allPlain_leaveShelf (now : Int) (thread : ServerThread) (shelf : Shelf) :
    AllPlain (leaveShelf now thread shelf).events := by
  unfold leaveShelf
  split_ifs
  · exact allPlain_nil
  · exact allPlain_accept.mpr ⟨by simp, by simp⟩

theorem allPlain_markUnreadDone (now : Int) (thread : ServerThread) (unreadDone : Bool) :
    AllPlain (markUnreadDone now thread unreadDone).events := by
  unfold markUnreadDone
  split_ifs
  · exact allPlain_nil
  · exact allPlain_accept.mpr ⟨by simp, rfl⟩

theorem allPlain_error {name empty tooLong : String} {refusal : Decision}
    (h : checkName name empty tooLong = .error refusal) : AllPlain refusal.events := by
  unfold checkName at h
  dsimp only at h
  split_ifs at h <;> cases h <;> exact allPlain_nil

theorem allPlain_decideCommand (state : DecideState) (now : Int) (command : Command) :
    AllPlain (decideCommand state now command).events := by
  cases command with
  | projectRename projectId label =>
    refine allPlain_decideProject fun project => ?_
    cases hname : checkName label "empty-label" "label-too-long" with
    | error refusal => exact allPlain_error hname
    | ok label => exact allPlain_cons.mpr ⟨trivial, allPlain_nil⟩
  | projectCheckpointsSet projectId enabled =>
    refine allPlain_decideProject fun project => ?_
    split_ifs
    · exact allPlain_nil
    · exact allPlain_cons.mpr ⟨trivial, allPlain_nil⟩
  | rename threadId title =>
    refine allPlain_decideThread fun thread => ?_
    cases hname : checkName title "empty-title" "title-too-long" with
    | error refusal => exact allPlain_error hname
    | ok title =>
      dsimp only
      split_ifs
      · exact allPlain_nil
      · exact allPlain_accept.mpr ⟨by simp, rfl⟩
  | pin threadId wanted =>
    refine allPlain_decideThread fun thread => ?_
    rcases wanted with _ | _ | order <;> dsimp only <;> split_ifs
    · exact allPlain_nil
    · exact allPlain_nil
    · exact allPlain_accept.mpr ⟨by simp, by simp⟩
    · exact allPlain_nil
    · exact allPlain_nil
    · exact allPlain_nil
    · exact allPlain_nil
    · exact allPlain_accept.mpr ⟨by simp, by simp⟩
  | unpin threadId | unsnooze threadId | unsettle threadId =>
    exact allPlain_decideThread fun thread => allPlain_leaveShelf now thread _
  | snooze threadId until_ =>
    refine allPlain_decideThread fun thread => ?_
    cases until_ with
    | none => exact allPlain_nil
    | some time =>
      dsimp only
      split_ifs
      · exact allPlain_nil
      · exact allPlain_nil
      · exact allPlain_accept.mpr ⟨by simp, by simp⟩
  | settle threadId =>
    refine allPlain_decideThread fun thread => ?_
    split_ifs
    · exact allPlain_nil
    · exact allPlain_nil
    · exact allPlain_accept.mpr ⟨by simp, by simp⟩
  | archive threadId =>
    refine allPlain_decideThread fun thread => ?_
    split_ifs
    · exact allPlain_nil
    · exact allPlain_accept.mpr trivial
  | unarchive threadId =>
    refine allPlain_decideThread fun thread => ?_
    split_ifs
    · exact allPlain_nil
    · exact allPlain_nil
    · exact allPlain_accept.mpr ⟨by simp, by simp⟩
  | delete threadId =>
    refine allPlain_decideThread fun thread => ?_
    split_ifs
    · exact allPlain_nil
    · exact allPlain_nil
    · exact allPlain_accept.mpr trivial
  | markRead threadId | markUnread threadId =>
    exact allPlain_decideThread fun thread => allPlain_markUnreadDone now thread _
  | effect type => exact allPlain_nil

theorem allPlain_requestEvents (json : RuntimeRequest → String) (request : RuntimeRequest) :
    AllPlain (requestEvents json request) :=
  allPlain_cons.mpr ⟨trivial, allPlain_cons.mpr ⟨trivial, allPlain_nil⟩⟩

theorem allPlain_closePaneEvents (json : RuntimeRequest → String) (runs : List Run)
    (requests : List RuntimeRequest) (thread : ServerThread) (at_ : Int) :
    AllPlain (closePaneEvents json runs requests thread at_) := by
  unfold closePaneEvents
  dsimp only
  have hclosed : PlainDraft
      { threadId := some thread.id, payload := .threadUpdated { paneAlive := .val false } at_ } :=
    ⟨by simp, rfl⟩
  split_ifs
  · exact allPlain_cons.mpr ⟨hclosed, allPlain_nil⟩
  · refine allPlain_append.mpr ⟨allPlain_append.mpr ⟨?_, ?_⟩, ?_⟩
    · intro draft hdraft
      obtain ⟨run, -, rfl⟩ := List.mem_map.mp hdraft
      trivial
    · intro draft hdraft
      obtain ⟨request, -, hdraft⟩ := List.mem_flatMap.mp hdraft
      exact allPlain_requestEvents json _ draft hdraft
    · exact allPlain_cons.mpr ⟨trivial, allPlain_cons.mpr ⟨hclosed, allPlain_nil⟩⟩

theorem allPlain_failEvents (thread : Option ServerThread) (threadId : String)
    (stage : CreateStage) (message : String) (closed : Bool) (at_ : Int) :
    AllPlain (failEvents thread threadId stage message closed at_) := by
  unfold failEvents
  refine allPlain_cons.mpr ⟨trivial, ?_⟩
  cases thread with
  | none => exact allPlain_nil
  | some thread =>
    refine allPlain_cons.mpr ⟨trivial, ?_⟩
    split_ifs
    · exact allPlain_nil
    · exact allPlain_cons.mpr ⟨trivial, allPlain_nil⟩
    · exact allPlain_cons.mpr ⟨⟨by simp, rfl⟩, allPlain_nil⟩
    · exact allPlain_nil

theorem allPlain_giveUpEvents (thread : Option ServerThread) (threadId message : String)
    (at_ : Int) : AllPlain (giveUpEvents thread threadId message at_) := by
  unfold giveUpEvents
  cases thread with
  | none => exact allPlain_nil
  | some thread =>
    refine allPlain_append.mpr ⟨?_, ?_⟩
    · exact allPlain_cons.mpr ⟨trivial, allPlain_cons.mpr ⟨trivial, allPlain_nil⟩⟩
    · split_ifs
      · exact allPlain_cons.mpr ⟨⟨by simp, rfl⟩, allPlain_nil⟩
      · exact allPlain_nil

theorem allPlain_readyEvents (thread : Option ServerThread) (threadId : String) (at_ : Int) :
    AllPlain (readyEvents thread threadId at_) := by
  unfold readyEvents
  cases thread with
  | none => exact allPlain_nil
  | some thread =>
    dsimp only
    split_ifs
    · exact allPlain_cons.mpr ⟨⟨by simp, rfl⟩, allPlain_nil⟩
    · exact allPlain_nil

theorem spawnEvents_eq (threads : List ServerThread) (newProject : Option Project) (fields : SpawnFields)
    (created : CreatedShell) (newId : String) (at_ : Int) :
    ∃ projects, AllPlain projects ∧ ((∃ seen terminalId, seenThread threads created = some seen ∧
        spawnEvents threads newProject fields created newId at_ = (seen.id, projects ++
          [{ threadId := some seen.id, payload := .threadUpdated (fields.patch terminalId) at_ }])) ∨
      seenThread threads created = none ∧ spawnEvents threads newProject fields created newId at_ =
          (newId, projects ++
            [{ threadId := some newId, payload := .threadCreated (spawnedThread fields created newId at_) }])) := by
  refine ⟨newProject.toList.map fun p => { payload := .projectUpserted p }, fun draft hdraft => ?_, ?_⟩
  · obtain ⟨p, -, rfl⟩ := List.mem_map.mp hdraft
    trivial
  · unfold spawnEvents
    cases seenThread threads created with
    | some seen => exact .inl ⟨seen, _, rfl, rfl⟩
    | none => exact .inr ⟨rfl, rfl⟩

theorem HerdWorld.OtherWriters.plain (h : HerdWorld.OtherWriters draft) : PlainDraft draft := by
  unfold HerdWorld.OtherWriters at h
  unfold PlainDraft
  cases hpay : draft.payload with
  | threadCreated | threadShelfChanged => simp only [hpay] at h
  | threadUpdated patch at_ =>
    simp only [hpay] at h
    exact ⟨h.2, h.1⟩
  | _ => trivial

theorem HerdWorld.drafts_plain {w w' : HerdWorld} {a : Action} (h : w.step a = some w')
    (hherd : ∀ snap ctx ts, a ≠ .reconcile snap ctx ts)
    (hspawn : ∀ newProject fields created newId options at_,
      a ≠ .spawn newProject fields created newId options at_) : AllPlain (w.drafts a) := by
  cases a with
  | reconcile snap ctx ts => exact absurd rfl (hherd snap ctx ts)
  | spawn newProject fields created newId options at_ => exact absurd rfl (hspawn _ _ _ _ _ _)
  | command command paneAlive options at_ => exact allPlain_decideCommand _ _ _
  | autoSettle days waiting at_ =>
    intro draft hdraft
    simp only [drafts, autoSettleEvents] at hdraft
    split at hdraft
    · cases hdraft
    · split_ifs at hdraft
      · cases hdraft
      · obtain ⟨thread, -, rfl⟩ := List.mem_map.mp hdraft
        exact ⟨by simp, by simp⟩
  | closePane thread json options at_ => exact allPlain_closePaneEvents _ _ _ _ _
  | jobFails threadId stage message closed options at_ => exact allPlain_failEvents _ _ _ _ _ _
  | jobGivesUp threadId message options at_ => exact allPlain_giveUpEvents _ _ _ _
  | jobReady threadId options at_ => exact allPlain_readyEvents _ _ _
  | jobReturns | restart | prune => exact allPlain_nil
  | other drafts options ts =>
    simp only [step] at h
    split_ifs at h with hother
    exact fun draft hdraft => (hother draft hdraft).plain

end Sightr
