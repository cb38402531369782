import Sightr.Client.Wire

/-!
# The sidebar against the store

`applyShellEvent` folded over the wire events after a snapshot, compared with the snapshot the store
would give at the end. The two agree as long as every event says on the wire what it does to the
tables. Three do not: a pending request with a `preview`, which the reducer keeps and the snapshot's
summary drops; a project without `checkpoints`, for which the store keeps a switch the reducer drops;
and a patch that clears a column through `undefined`.
-/

namespace Sightr.Client

open Keyed (Table)

/-! ### Agreement with the tables -/

/-- The sidebars hold the same projects, the same threads (absent and false flags identified) and the
same pending requests. -/
structure ShellState.SameRecords (s t : ShellState) : Prop where
  projects : ∀ id, s.projects.find? id = t.projects.find? id
  threads : ∀ id, (s.threads.find? id).map withoutFalseFlags = (t.threads.find? id).map withoutFalseFlags
  requests : ∀ r : RuntimeRequestSummary, r.status = .pending → (r ∈ s.requests.rows ↔ r ∈ t.requests.rows)

structure ShellAgrees (s : ShellState) (p : Projection) : Prop where
  projects : ∀ id, s.projects.find? id = p.projects.find? id
  threads : ∀ id, (s.threads.find? id).map withoutFalseFlags =
    (p.threads.find? id).map fun t => withoutFalseFlags (toWireThread t)
  requests : ∀ r : RuntimeRequestSummary, r.status = .pending →
    (r ∈ s.requests.rows ↔ ∃ row ∈ p.runtimeRequests.rows, summary row.body = r)

variable {s : ShellState} {p : Projection}

theorem ShellAgrees.sameRecords {t : ShellState} (hs : ShellAgrees s p) (ht : ShellAgrees t p) : s.SameRecords t where
  projects id := (hs.projects id).trans (ht.projects id).symm
  threads id := (hs.threads id).trans (ht.threads id).symm
  requests r hr := (hs.requests r hr).trans (ht.requests r hr).symm

theorem find?_ofList_map {ρ σ : Type} {key : ρ → String} {k : σ → String} (t : Table key)
    {l : List ρ} (hperm : l.Perm t.rows) {f : ρ → σ} (hkey : ∀ r, k (f r) = key r) (id : String) :
    (Table.ofList (l.map f) : Table k).find? id = (t.find? id).map f := by
  have hnodup : ((l.map f).map k).Nodup := by
    rw [List.map_map, show k ∘ f = key from funext hkey]
    exact (hperm.map key).nodup_iff.mpr t.nodup
  refine Option.ext fun s => ?_
  rw [Table.find?_ofList hnodup, Option.map_eq_some_iff]
  constructor
  · rintro ⟨hs, hid⟩
    obtain ⟨r, hr, rfl⟩ := List.mem_map.mp hs
    exact ⟨r, Table.find?_eq_some_iff.mpr ⟨hperm.mem_iff.mp hr, (hkey r).symm.trans hid⟩, rfl⟩
  · rintro ⟨r, hr, rfl⟩
    obtain ⟨hmem, rfl⟩ := Table.find?_eq_some_iff.mp hr
    exact ⟨List.mem_map.mpr ⟨r, hperm.mem_iff.mpr hmem, rfl⟩, hkey r⟩

theorem shellFromSnapshot_projects (db : Db) (projectId : String) :
    (shellFromSnapshot db.snapshotShell).projects.find? projectId = db.projection.projects.find? projectId := by
  have hperm : db.projection.listProjects.Perm db.projection.projects.rows := List.perm_insertionSort _ _
  have h := find?_ofList_map (k := Project.id) _ hperm (f := id) (fun _ => rfl) projectId
  rw [List.map_id, Option.map_id] at h
  exact h

theorem shellFromSnapshot_threads (db : Db) (threadId : String) :
    (shellFromSnapshot db.snapshotShell).threads.find? threadId =
      (db.projection.threads.find? threadId).map toWireThread :=
  find?_ofList_map (k := ThreadOf.id) db.projection.threads (List.perm_insertionSort _ _)
    (f := toWireThread) (fun _ => rfl) threadId

theorem shellFromSnapshot_agrees (db : Db) : ShellAgrees (shellFromSnapshot db.snapshotShell) db.projection where
  projects := shellFromSnapshot_projects db
  threads threadId := by
    rw [shellFromSnapshot_threads, Option.map_map]
    rfl
  requests r hr := by
    have hrows : ∀ row, row ∈ db.projection.pendingRows ↔
        row ∈ db.projection.runtimeRequests.rows ∧ row.body.status = .pending := by
      simp [Projection.pendingRows]
    have hnodup : ((db.projection.pendingRequests.map summary).map RuntimeRequestSummary.id).Nodup := by
      have hperm : (db.projection.pendingRows.map RequestRow.id).Nodup :=
        ((List.perm_insertionSort _ _).map _).nodup_iff.mpr
          (db.projection.runtimeRequests.filter fun r => r.body.status = .pending).nodup
      rw [Projection.pendingRequests, List.map_map, List.map_map]
      exact hperm
    rw [shellFromSnapshot, Db.snapshotShell, Table.mem_ofList hnodup, Projection.pendingRequests,
      List.map_map, List.mem_map]
    constructor
    · rintro ⟨row, hrow, rfl⟩
      exact ⟨row, ((hrows row).mp hrow).1, rfl⟩
    · rintro ⟨row, hrow, rfl⟩
      exact ⟨row, (hrows row).mpr ⟨hrow, hr⟩, rfl⟩

/-! ### What each event does to the sidebar -/

/-- A pending request is published without a preview. -/
def SaysPreview (payload : ServerPayload) : Prop :=
  match payload with
  | .runtimeRequestUpdated request _ => request.status = .pending → request.preview = none
  | _ => True

instance (payload : ServerPayload) : Decidable (SaysPreview payload) := by
  unfold SaysPreview
  split <;> infer_instance

/-- A project is published with its checkpoint switch when the store has one. -/
def SaysSwitch (p : Projection) (payload : ServerPayload) : Prop :=
  match payload with
  | .projectUpserted project =>
    project.checkpoints = none → (p.projects.find? project.id).bind (·.checkpoints) = none
  | _ => True

instance (p : Projection) (payload : ServerPayload) : Decidable (SaysSwitch p payload) := by
  unfold SaysSwitch
  split <;> infer_instance

/-- The events whose frame says all the store does with them. -/
@[mk_iff] structure ShellMirrors (db : Db) (event : StoredEvent) : Prop where
  clearsNothing : db.projection.ClearsNothing event
  preview : SaysPreview event.payload
  switch : SaysSwitch db.projection event.payload

instance (db : Db) (event : StoredEvent) : Decidable (ShellMirrors db event) :=
  decidable_of_iff _ (shellMirrors_iff db event).symm

/-! ### The lists, through a view -/

/-- The sidebar lists what the tables hold, as seen through `f` and `g`. -/
structure ListsAgree {α β : Type} (f : Thread → α) (g : Project → β) (s : ShellState) (p : Projection) : Prop where
  projects : ∀ id, (s.projects.find? id).map g = (p.projects.find? id).map g
  threads : ∀ id, (s.threads.find? id).map f = (p.threads.find? id).map fun t => f (toWireThread t)

namespace ListsAgree

variable {α β : Type} {f : Thread → α} {g : Project → β} {s : ShellState} {p p' : Projection}

theorem of_lookups {s' : ShellState} (h : ListsAgree f g s p)
    (hprojects : ∀ id, s'.projects.find? id = s.projects.find? id)
    (hthreads : ∀ id, s'.threads.find? id = s.threads.find? id)
    (hprojects' : p'.projects = p.projects) (hthreads' : p'.threads = p.threads) :
    ListsAgree f g s' p' where
  projects id := by rw [hprojects, hprojects', h.projects]
  threads id := by rw [hthreads, hthreads', h.threads]

theorem shellFromSnapshot (db : Db) : ListsAgree f g (Client.shellFromSnapshot db.snapshotShell) db.projection where
  projects id := congrArg (Option.map g) (shellFromSnapshot_projects db id)
  threads id := by
    rw [shellFromSnapshot_threads, Option.map_map]
    rfl

theorem setThread (h : ListsAgree f g s p) (next : Thread) (row : ServerThread)
    {threads : Table (@ThreadOf.id AgentSessionRef)}
    (hthreads : ∀ id, threads.find? id = if row.id = id then some row else p.threads.find? id)
    (hid : next.id = row.id) (hrow : f next = f (toWireThread row)) (sequence : Nat) :
    ListsAgree f g { s with threads := s.threads.set next, sequence } { p with threads } where
  projects := h.projects
  threads id := by
    rw [Table.find?_set, hthreads, hid]
    split_ifs
    · exact congrArg some hrow
    · exact h.threads id

theorem setProject (h : ListsAgree f g s p) (project row : Project)
    (hid : project.id = row.id) (hrow : g project = g row) (sequence : Nat) :
    ListsAgree f g { s with projects := s.projects.set project, sequence }
      { p with projects := p.projects.set row } where
  projects id := by
    rw [Table.find?_set, Table.find?_set, hid]
    split_ifs
    · exact congrArg some hrow
    · exact h.projects id
  threads := h.threads

end ListsAgree

/-- What the views must take to keep up with an event: a patched thread looks the same on both sides,
and a published project looks as it is stored. -/
structure SeenAlike {α β : Type} (f : Thread → α) (g : Project → β) (p : Projection)
    (event : StoredEvent) : Prop where
  patch : ∀ p', p.applyEvent event = .ok p' → event.payload.type ∈ THREAD_PATCH_TYPES →
    ∃ threadId thread row, event.threadId = some threadId ∧ threadId ≠ "" ∧
      p.threads.find? threadId = some thread ∧ row.id = threadId ∧
      p' = { p with threads := p.threads.set row } ∧
      ∀ mine : Thread, mine.id = threadId → f mine = f (toWireThread thread) →
        ∃ next, patchThread mine event.frame = some next ∧ next.id = threadId ∧ f next = f (toWireThread row)
  created : ∀ thread, event.payload = .threadCreated thread →
    f (toWireThread (threadParams thread)) = f (toWireThread thread)
  upserted : ∀ project, event.payload = .projectUpserted project → g { project with
        checkpoints := project.checkpoints <|>
          (p.projects.find? project.id).bind (·.checkpoints) } = g project
  closed : ∀ projectId closedAt, event.payload = .projectClosed projectId closedAt → ∀ a b : Project, g a = g b →
      g { a with closedAt := some closedAt } = g { b with closedAt := some closedAt }

variable {event : StoredEvent}

theorem ListsAgree.shellEvent {α β : Type} {f : Thread → α} {g : Project → β} {s : ShellState} {p p' : Projection}
    (hs : ListsAgree f g s p) (hseen : SeenAlike f g p event) (htype : event.payload.type ∈ SHELL_EVENT_TYPES)
    (h : p.applyEvent event = .ok p') :
    ListsAgree f g (Client.shellEvent s event.frame) p' := by
  by_cases hpatch : event.payload.type ∈ THREAD_PATCH_TYPES
  · obtain ⟨threadId, thread, row, hid, hne, hfind, hrow, rfl, hmirror⟩ := hseen.patch p' h hpatch
    obtain ⟨mine, hmine, hsame⟩ : ∃ mine, s.threads.find? threadId = some mine ∧
        f mine = f (toWireThread thread) := by
      have hlist := hs.threads threadId
      rw [hfind, Option.map_some, Option.map_eq_some_iff] at hlist
      exact hlist
    obtain ⟨next, hnext, hnextId, hnextrow⟩ := hmirror mine (Table.key_of_find? hmine) hsame
    have hstate : Client.shellEvent s event.frame =
        { s with threads := s.threads.set next, sequence := event.sequence } := by
      have hlookup : (event.frame.threadId.filter (· ≠ "")).bind s.threads.find? = some mine := by
        simp [hid, hne, hmine, Option.filter_some]
      unfold Client.shellEvent
      cases hpay : event.payload with
      | threadUpdated | threadShelfChanged | threadArchived =>
        simp only [hlookup, hnext, StoredEvent.payload_frame, hpay, Payload.toJson,
          ServerPayload.toWire, StoredEvent.sequence_frame]
      | _ => simp [hpay, THREAD_PATCH_TYPES, Payload.type] at hpatch
    rw [hstate]
    exact hs.setThread next row (Table.find?_set p.threads row) (hnextId.trans hrow.symm) hnextrow event.sequence
  · unfold Client.shellEvent
    cases Projection.applied_of_applyEvent h with
    | @projectUpserted project hpay =>
      rw [Projection.upsertProject]
      simp only [StoredEvent.payload_frame, hpay, Payload.toJson, ServerPayload.toWire]
      refine hs.setProject project _ ?_ (hseen.upserted project hpay).symm event.sequence
      rfl
    | @projectClosed projectId closedAt project hpay hfind =>
      have hlist := hs.projects projectId
      rw [hfind, Option.map_some, Option.map_eq_some_iff] at hlist
      obtain ⟨mine, hmine, hsame⟩ := hlist
      simp only [StoredEvent.payload_frame, hpay, Payload.toJson, ServerPayload.toWire, hmine]
      refine hs.setProject { mine with closedAt := some closedAt } _ ?_
        (hseen.closed projectId closedAt hpay mine project hsame) event.sequence
      exact (Table.key_of_find? hmine).trans (Table.key_of_find? hfind).symm
    | @threadCreated thread _ hpay hinsert =>
      simp only [StoredEvent.payload_frame, hpay, Payload.toJson, ServerPayload.toWire]
      exact hs.setThread _ (threadParams thread) (Table.find?_insert? hinsert) rfl
        (hseen.created thread hpay).symm event.sequence
    | @threadDeleted _ threadId hpay hid =>
      simp only [StoredEvent.payload_frame, hpay, Payload.toJson, ServerPayload.toWire,
        StoredEvent.threadId_frame, hid]
      refine ⟨hs.projects, fun id => ?_⟩
      have hlist := hs.threads id
      rw [Projection.deleteThread, Table.find?_filter, Table.find?_filter]
      cases hmine : s.threads.find? id with
      | none =>
        rw [hmine, eq_comm, Option.map_none, Option.map_eq_none_iff] at hlist
        rw [hlist]
        rfl
      | some mine =>
        rw [hmine, eq_comm, Option.map_some, Option.map_eq_some_iff] at hlist
        obtain ⟨thread, hthread, hsame⟩ := hlist
        have hid : mine.id = thread.id := (Table.key_of_find? hmine).trans (Table.key_of_find? hthread).symm
        rw [hthread, Option.filter_some, Option.filter_some, hid]
        by_cases hgone : thread.id = threadId <;> simp [hgone, hsame]
    | runtimeRequestUpdated hpay =>
      simp only [StoredEvent.payload_frame, hpay, Payload.toJson, ServerPayload.toWire]
      exact ⟨hs.projects, hs.threads⟩
    | notice hnotice =>
      cases hpay : event.payload with
      | commandRejected | dispatchFailed | threadCreateFailed =>
        simpa only [StoredEvent.payload_frame, hpay, Payload.toJson, ServerPayload.toWire] using hs
      | _ => simp [hpay, Payload.type] at hnotice
    | threadUpdated hpay | threadShelfChanged hpay | threadArchived hpay =>
      simp [hpay, THREAD_PATCH_TYPES, Payload.type] at hpatch
    | _ => simp_all [SHELL_EVENT_TYPES, Payload.type]

theorem seenAlike_records {p : Projection} (hclear : p.ClearsNothing event) (hswitch : SaysSwitch p event.payload) :
    SeenAlike withoutFalseFlags id p event where
  created thread _ := withoutFalseFlags_threadParams thread
  upserted project hpay := by
    rw [hpay] at hswitch
    have hkeep : (project.checkpoints <|>
        (p.projects.find? project.id).bind (·.checkpoints)) = project.checkpoints := by
      cases hc : project.checkpoints with
      | some v => rfl
      | none => exact hswitch hc
    rw [hkeep]
  closed _ _ _ a b hab := by
    obtain rfl : a = b := hab
    rfl
  patch p' happ htype := by
    obtain ⟨threadId, thread, row, hid, hne, hfind, hrow, hp', hmirror⟩ :=
      patchThread_mirrors htype hclear happ
    refine ⟨threadId, thread, row, hid, hne, hfind, hrow, hp', fun mine _ hsame => ?_⟩
    obtain ⟨next, hnext, hnextrow⟩ := hmirror mine hsame
    exact ⟨next, hnext, (congrArg ThreadOf.id hnextrow).trans hrow, hnextrow⟩

/-! ### The records -/

theorem ShellAgrees.setRequest (h : ShellAgrees s p) {row : RequestRow}
    (hpreview : row.body.status = .pending → row.body.preview = none) {r : RuntimeRequestSummary}
    (hr : r.status = .pending) : r ∈ (s.requests.set (summarize row.body)).rows ↔
      ∃ old ∈ (p.runtimeRequests.set row).rows, summary old.body = r := by
  rw [Table.mem_set]
  constructor
  · rintro (rfl | ⟨hmem, hne⟩)
    · refine ⟨row, Table.mem_set.mpr (.inl rfl), ?_⟩
      rw [summary, ← hpreview hr]
      rfl
    · obtain ⟨old, hold, rfl⟩ := (h.requests r hr).mp hmem
      exact ⟨old, Table.mem_set.mpr (.inr ⟨hold, hne⟩), rfl⟩
  · rintro ⟨old, hold, rfl⟩
    rcases Table.mem_set.mp hold with rfl | ⟨hold, hne⟩
    · left
      rw [summary, ← hpreview hr]
      rfl
    · exact .inr ⟨(h.requests _ hr).mpr ⟨old, hold, rfl⟩, hne⟩

theorem ShellAgrees.lists (h : ShellAgrees s p) : ListsAgree withoutFalseFlags id s p where
  projects := fun projectId => congrArg _ (h.projects projectId)
  threads := h.threads

theorem requests_shellEvent (hrequest : event.payload.type ≠ .runtimeRequestUpdated)
    (hdeleted : event.payload.type ≠ .threadDeleted) : (Client.shellEvent s event.frame).requests = s.requests := by
  unfold Client.shellEvent
  cases hpay : event.payload with
  | runtimeRequestUpdated | threadDeleted => simp [hpay, Payload.type] at hrequest hdeleted
  | _ =>
    simp only [StoredEvent.payload_frame, hpay, Payload.toJson, ServerPayload.toWire]
    repeat' split
    all_goals rfl

theorem ShellAgrees.shellEvent {p' : Projection} (hs : ShellAgrees s p) (hclear : p.ClearsNothing event)
    (hpreview : SaysPreview event.payload) (hswitch : SaysSwitch p event.payload)
    (htype : event.payload.type ∈ SHELL_EVENT_TYPES) (h : p.applyEvent event = .ok p') :
    ShellAgrees (Client.shellEvent s event.frame) p' := by
  have hlists := hs.lists.shellEvent (seenAlike_records hclear hswitch) htype h
  refine ⟨fun id => by simpa using hlists.projects id, hlists.threads, ?_⟩
  have hother (hrequest : event.payload.type ≠ .runtimeRequestUpdated) (hdeleted : event.payload.type ≠ .threadDeleted) :
      ∀ r : RuntimeRequestSummary, r.status = .pending → (r ∈ (Client.shellEvent s event.frame).requests.rows ↔
        ∃ row ∈ p.runtimeRequests.rows, summary row.body = r) := by
    rw [requests_shellEvent hrequest hdeleted]
    exact hs.requests
  cases Projection.applied_of_applyEvent h with
  | @runtimeRequestUpdated request boundText hpay =>
    rw [hpay] at hpreview
    simp only [Client.shellEvent, StoredEvent.payload_frame, hpay, Payload.toJson, ServerPayload.toWire]
    exact fun r hr => @ShellAgrees.setRequest _ _ hs (p.requestRow request boundText event.sequence) hpreview r hr
  | threadDeleted hpay hid =>
    intro r hr
    simp only [Client.shellEvent, StoredEvent.payload_frame, hpay, Payload.toJson, ServerPayload.toWire,
      StoredEvent.threadId_frame, hid, Projection.deleteThread, Table.rows_filter, List.mem_filter, hs.requests r hr]
    constructor
    · rintro ⟨⟨row, hrow, rfl⟩, hthread⟩
      exact ⟨row, ⟨hrow, by simpa [summary] using hthread⟩, rfl⟩
    · rintro ⟨row, ⟨hrow, hthread⟩, rfl⟩
      exact ⟨⟨row, hrow, rfl⟩, by simpa [summary] using hthread⟩
  | notice hpay => exact hother (fun htype => by simp [htype] at hpay) fun htype => by simp [htype] at hpay
  | _ => exact hother (by simp [*, Payload.type]) (by simp [*, Payload.type])

/-! ### Histories -/

def shellFrames (written : List StoredEvent) : List ThreadEvent :=
  (written.filter fun e => SHELL_EVENT_TYPES.contains e.payload.type).map StoredEvent.frame

/-- The sidebar holds what the tables hold and has not run ahead of the store. -/
structure ShellCurrent (s : ShellState) (db : Db) : Prop where
  agrees : ShellAgrees s db.projection
  sequence_le : s.sequence ≤ db.seq

theorem shellEvent_sequence_le {event : ThreadEvent} {n : Nat} (hs : s.sequence ≤ n) (hevent : event.sequence ≤ n) :
    (shellEvent s event).sequence ≤ n := by
  unfold shellEvent
  repeat' split
  all_goals first
    | exact hs
    | exact hevent

theorem ShellCurrent.writeDraft {options : AppendOptions} {ts : Int} {db db' : Db} {raw : EventDraft}
    (hs : ShellCurrent s db) (hmirror : ShellMirrors db event)
    (h : Db.writeDraft options ts db raw = .ok (db', event)) :
    ShellCurrent ((shellFrames [event]).foldl applyShellEvent s) db' := by
  obtain ⟨rfl, happ, hseq, hseq'⟩ := Db.writeDraft_projection h
  have hold : s.sequence ≤ db'.seq := hs.sequence_le.trans (by omega)
  by_cases htype : (db.stamp options ts raw).payload.type ∈ SHELL_EVENT_TYPES
  · have hcheck := check_frame (fun hrun => by rw [hrun] at htype; exact absurd htype (by decide)) happ
    have hfresh : ¬ (db.stamp options ts raw).sequence ≤ s.sequence := by
      have := hs.sequence_le
      omega
    have hfold : (shellFrames [db.stamp options ts raw]).foldl applyShellEvent s =
        shellEvent s (db.stamp options ts raw).frame := by
      simp [shellFrames, htype, applyShellEvent, hcheck, hfresh]
    rw [hfold]
    exact ⟨hs.agrees.shellEvent hmirror.clearsNothing hmirror.preview hmirror.switch htype happ,
      shellEvent_sequence_le hold (by rw [StoredEvent.sequence_frame]; omega)⟩
  · have hfold : (shellFrames [db.stamp options ts raw]).foldl applyShellEvent s = s := by
      simp [shellFrames, htype]
    obtain ⟨runs, turnItems, queuedMessages, runCheckpoints, hshape⟩ :=
      Projection.applyEvent_shape_of_not_shell htype happ
    rw [hfold]
    refine ⟨?_, hold⟩
    rw [hshape]
    exact ⟨hs.agrees.projects, hs.agrees.threads, hs.agrees.requests⟩

/-- After any history whose events say on the wire what the store does with them, the sidebar folded
from the first snapshot holds the projects, the threads and the pending requests of a fresh one. -/
theorem shell_agrees_with_snapshot {db db' : Db} {batches : List Batch}
    {written : List (List StoredEvent)} (hmirror : db.Meets ShellMirrors batches)
    (h : db.appends batches = .ok (db', written)) :
    ((shellFrames written.flatten).foldl applyShellEvent (shellFromSnapshot db.snapshotShell)).SameRecords
      (shellFromSnapshot db'.snapshotShell) := by
  have hcurrent : ShellCurrent ((shellFrames written.flatten).foldl applyShellEvent
      (shellFromSnapshot db.snapshotShell)) db' := by
    refine Db.appends_invariant (P := fun db sofar => ShellCurrent
      ((shellFrames sofar).foldl applyShellEvent (shellFromSnapshot _)) db) (w := [])
      ?_ ?_ ?_ hmirror h
    · intro options ts m sofar raw m' event hm hC hstep
      have hnext := hm.writeDraft hC hstep
      rwa [← List.foldl_append, ← show shellFrames (sofar ++ [event]) =
        shellFrames sofar ++ shellFrames [event] by simp [shellFrames]] at hnext
    · intro m m' sofar hsame hm
      exact ⟨by rw [hsame.projection]; exact hm.agrees, by rw [hsame.seq]; exact hm.sequence_le⟩
    · exact ⟨shellFromSnapshot_agrees db, Nat.le_refl db.seq⟩
  exact hcurrent.agrees.sameRecords (shellFromSnapshot_agrees db')

/-- A thread with a pending request, which shows a preview or not. -/
def requestHistory (preview : Option RequestPreview) : List Batch :=
  [{ drafts := [createProject (testProject "w1"), createThread (testThread "t1")], ts := 1000 },
    { drafts := [{ threadId := some "t1"
                   payload := .runtimeRequestUpdated
                    { id := "r1", threadId := "t1", kind := .menu, prompt := "Pick a theme"
                      status := .pending, bindingHash := "h1", createdAt := 2000, updatedAt := 2000
                      options := [{ label := "Dark", keys := ["1"] }], preview }
                    (some "1. Dark") }]
      ts := 2000 }]

/-- A request without a preview is the same record in both. -/
theorem shell_agrees_with_snapshot_request : ∃ r, Db.empty.appends (requestHistory none) = .ok r ∧
      ((shellFrames r.2.flatten).foldl applyShellEvent (shellFromSnapshot Db.empty.snapshotShell)).SameRecords
        (shellFromSnapshot r.1.snapshotShell) :=
  ⟨_, rfl, @shell_agrees_with_snapshot Db.empty _ (requestHistory none) _ (by decide) rfl⟩

/-- The sidebar keeps the preview of a pending request; a fresh snapshot has none. -/
theorem shell_diverges_on_preview : ¬ ∀ (db db' : Db) (batches : List Batch) (written : List (List StoredEvent)),
      db.appends batches = .ok (db', written) →
      ((shellFrames written.flatten).foldl applyShellEvent (shellFromSnapshot db.snapshotShell)).SameRecords
        (shellFromSnapshot db'.snapshotShell) := by
  intro h
  have hsame := h Db.empty _ (requestHistory (some ⟨0, ["bg: black"]⟩)) _ rfl
  have hrows := hsame.requests
    { id := "r1", threadId := "t1", kind := .menu, prompt := "Pick a theme", status := .pending
      bindingHash := "h1", createdAt := 2000, updatedAt := 2000
      preview := some ⟨0, ["bg: black"]⟩ } rfl
  revert hrows
  decide

end Sightr.Client
