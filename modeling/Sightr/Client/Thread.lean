import Sightr.Client.Wire
import Sightr.Store.Queue

/-!
# An open thread against the store

`applyThreadEvent` folded over a thread's wire events after a snapshot, compared with the snapshot the
store would give at the end. The two agree as long as every event says on the wire what it does to the
thread's rows, and no step brings an old item into the snapshot's window without sending it. The
reducer's table of event types has no `run.updated`, so a changed run never reaches it.
-/

namespace Sightr

open Keyed (Table)

/-- Where the window of a snapshot of the thread starts. -/
def Projection.snapshotFrom (p : Projection) (threadId : String) : Int :=
  p.windowFrom threadId (p.listRuns threadId SNAPSHOT_RUNS)

def Projection.runsOf (p : Projection) (threadId : String) : List Run :=
  (p.runs.rows.filter (·.threadId = threadId)).map p.withCheckpoint

namespace Client

/-! ### What the events have to say -/

variable (threadId : String) (p : Projection)

def RunOf (runId : String) : Prop := ∃ run ∈ p.runs.find? runId, run.threadId = threadId

instance (threadId : String) (p : Projection) (runId : String) : Decidable (RunOf threadId p runId) :=
  match h : p.runs.find? runId with
  | none => .isFalse fun ⟨run, hrun, _⟩ => by simp [h] at hrun
  | some run => decidable_of_iff (run.threadId = threadId) ⟨fun ht => ⟨run, h, ht⟩,
      fun ⟨run', hrun, ht⟩ => by cases h.symm.trans hrun; exact ht⟩

/-- The record a captured checkpoint carries is what its run's row reads back as: the row the event
writes, or the one it leaves alone. -/
def RecordReadsBack (c : RunCheckpoint) (phase : CheckpointPhase) (extra : CapturedExtra) (ts : Int) : Prop :=
  match phase, p.runCheckpoints.find? c.runId with
  | .start, none => checkpointFromRow (Projection.checkpointStartRow c extra ts) = c
  | .start, some row => row.status = .pending → checkpointFromRow row = c
  | .end, none => checkpointFromRow (Projection.checkpointEndRow none c extra ts) = c
  | .end, some row =>
    if row.endAt.isSome then checkpointFromRow row = c
    else checkpointFromRow (Projection.checkpointEndRow (some row) c extra ts) = c

instance (p : Projection) (c : RunCheckpoint) (phase : CheckpointPhase) (extra : CapturedExtra)
    (ts : Int) : Decidable (RecordReadsBack p c phase extra ts) := by
  unfold RecordReadsBack
  split <;> infer_instance

/-- No ordinary item of the thread has the id of the run's checkpoint item. -/
def CheckpointItemFree (runId : String) : Prop :=
  ∀ row ∈ p.turnItems.find? (checkpointItemId runId), row.threadId = threadId → row.body.body.type = .checkpoint

instance (threadId : String) (p : Projection) (runId : String) : Decidable (CheckpointItemFree threadId p runId) :=
  inferInstanceAs (Decidable (∀ row ∈ p.turnItems.find? _, _))

variable (event : StoredEvent)

/-- The event says on the thread's stream what it does to the thread's rows. -/
def SaysRows : Prop :=
  match event.payload with
  | .threadDeleted _ =>
    -- No checkpoint of the thread's runs hangs on the deleted thread.
    ∀ c ∈ p.runCheckpoints.rows, RunOf threadId p c.runId → some c.threadId ≠ event.threadId
  | .runStarted run =>
    run.threadId = threadId → event.threadId = some threadId → run.checkpoint = none
  | .runEnded runId _ _ => RunOf threadId p runId → event.threadId = some threadId
  | .runUpdated update =>
    -- The reducer does not know the type.
    ∀ run ∈ p.runs.find? update.id, run.threadId = threadId →
      run.userItemId = update.userItemId ∧ run.status = update.status ∧ run.completedAt = update.completedAt
  | .turnItemUpdated item =>
    if item.threadId = threadId then event.threadId = some threadId
    else ∀ row ∈ p.turnItems.find? item.id, row.threadId ≠ threadId
  | .runtimeRequestUpdated request _ =>
    if request.threadId = threadId then event.threadId = some threadId
    else ∀ row ∈ p.runtimeRequests.find? request.id, row.body.threadId ≠ threadId
  | .queueUpdated messages _ _ =>
    event.threadId = some threadId → ∀ m ∈ messages, m.threadId = threadId
  | .checkpointCaptured c phase extra =>
    CheckpointItemFree threadId p c.runId ∧
      (RunOf threadId p c.runId → event.threadId = some threadId ∧ c.threadId = threadId ∧
        RecordReadsBack p c phase extra event.ts)
  | .checkpointExpired runId =>
    CheckpointItemFree threadId p runId ∧ (RunOf threadId p runId → ∀ row ∈ p.runCheckpoints.find? runId,
        event.threadId = some threadId ∧ row.status ≠ .absent ∧ row.startCommit ≠ none)
  | _ => True

instance (threadId : String) (p : Projection) (event : StoredEvent) : Decidable (SaysRows threadId p event) := by
  unfold SaysRows
  generalize event.payload = payload
  apply @Payload.casesOn _ _ _ _ payload <;> intros <;> infer_instance

def carriedItem : Option String :=
  match event.payload with
  | .turnItemUpdated item => some item.id
  | _ => none

/-- No ordinary item of the thread below the snapshot's window comes into it, but for one the event
carries. -/
def KeepsWindow : Prop :=
  match p.applyEvent event with
  | .error _ => True
  | .ok p' => ∀ row ∈ p.turnItems.rows, row.threadId = threadId → row.body.body.type ≠ .checkpoint →
      carriedItem event ≠ some row.id → row.position < p.snapshotFrom threadId →
        row.position < p'.snapshotFrom threadId

instance (threadId : String) (p : Projection) (event : StoredEvent) : Decidable (KeepsWindow threadId p event) := by
  unfold KeepsWindow
  split <;> infer_instance

/-- The events that leave a client of the thread's stream where a fresh snapshot would. -/
@[mk_iff] structure ThreadMirrors (threadId : String) (p : Projection) (event : StoredEvent) : Prop where
  clearsNothing : p.ClearsNothing event
  saysRows : SaysRows threadId p event
  keepsWindow : KeepsWindow threadId p event

instance (threadId : String) (p : Projection) (event : StoredEvent) : Decidable (ThreadMirrors threadId p event) :=
  decidable_of_iff _ (threadMirrors_iff threadId p event).symm

/-! ### Agreement with the tables -/

/-- The open thread shows what the snapshot does: the same thread (absent and false flags identified),
every run it holds, the ordinary items of the window, the pending requests and the queue. -/
structure ThreadState.Matches (s : ThreadState) (db : Db) (snapshot : ThreadSnapshot) : Prop where
  thread : s.thread.map withoutFalseFlags = some (withoutFalseFlags snapshot.thread)
  runs : ∀ run ∈ s.runs.rows, run ∈ db.projection.runsOf s.threadId ∧
    ∀ run' ∈ snapshot.runs, run'.id = run.id → run' = run
  items : ∀ item, item.body.type ≠ .checkpoint → (item ∈ snapshot.items ↔
    item ∈ s.items.rows ∧ db.projection.snapshotFrom s.threadId ≤ item.ordinal)
  requests : ∀ r : RuntimeRequest, r ∈ snapshot.requests ↔ r ∈ s.requests.rows ∧ r.status = .pending
  queue : s.queue = snapshot.queue

def RunsAgree (runs : Table Run.id) (p : Projection) : Prop :=
  ∀ run ∈ runs.rows, ∃ row, p.runs.find? run.id = some row ∧ row.threadId = threadId ∧ p.withCheckpoint row = run

/-- The held items are the store's, and those of the window are held. -/
structure ItemsAgree (threadId : String) (items : Table (@TurnItemOf.id Int)) (p : Projection) : Prop where
  inWindow : ∀ row ∈ p.turnItems.rows, row.threadId = threadId →
    row.body.body.type ≠ .checkpoint → p.snapshotFrom threadId ≤ row.position → row.body ∈ items.rows
  held : ∀ item ∈ items.rows, item.body.type ≠ .checkpoint →
    ∃ row ∈ p.turnItems.rows, row.threadId = threadId ∧ row.body = item

def RequestsAgree (requests : Table (fun r : RuntimeRequest => r.id)) (p : Projection) : Prop :=
  ∀ r : RuntimeRequest, r.status = .pending →
    (r ∈ requests.rows ↔ r.threadId = threadId ∧ ∃ row ∈ p.runtimeRequests.rows, row.body = r)

/-- The open thread holds what the tables hold of it. -/
structure ThreadAgrees (s : ThreadState) (p : Projection) : Prop where
  thread : ∃ mine row, s.thread = some mine ∧ p.threads.find? s.threadId = some row ∧
    withoutFalseFlags mine = withoutFalseFlags (toWireThread row)
  runs : RunsAgree s.threadId s.runs p
  items : ItemsAgree s.threadId s.items p
  requests : RequestsAgree s.threadId s.requests p
  queue : s.queue = p.listQueued s.threadId

/-! ### Runs -/

/-- The run's row and its checkpoint's are left alone. -/
def KeepsRun (p p' : Projection) (runId : String) : Prop :=
  ∀ row, p.runs.find? runId = some row → row.threadId = threadId →
    p'.runs.find? runId = some row ∧ p'.runCheckpoints.find? runId = p.runCheckpoints.find? runId

variable {p p' : Projection} {run : Run}

private theorem KeepsRun.held {threadId : String} {row : Run} (hkeep : KeepsRun threadId p p' run.id)
    (hfind : p.runs.find? run.id = some row) (hthread : row.threadId = threadId) (hrow : p.withCheckpoint row = run) :
    ∃ row, p'.runs.find? run.id = some row ∧ row.threadId = threadId ∧ p'.withCheckpoint row = run := by
  obtain ⟨hfind', hcheckpoint⟩ := hkeep row hfind hthread
  refine ⟨row, hfind', hthread, ?_⟩
  rw [← Table.key_of_find? hfind] at hcheckpoint
  rw [Projection.withCheckpoint, hcheckpoint]
  exact hrow

variable {runs : Table Run.id}

theorem RunsAgree.keep {threadId : String} (h : RunsAgree threadId runs p)
    (hkeep : ∀ run ∈ runs.rows, KeepsRun threadId p p' run.id) :
    RunsAgree threadId runs p' := by
  intro run hrun
  obtain ⟨row, hfind, hthread, hrow⟩ := h run hrun
  exact (hkeep run hrun).held hfind hthread hrow

theorem RunsAgree.set {threadId : String} (row : Run) (h : RunsAgree threadId runs p)
    (hfind : p'.runs.find? run.id = some row) (hthread : row.threadId = threadId) (hrow : p'.withCheckpoint row = run)
    (hkeep : ∀ runId, runId ≠ run.id → KeepsRun threadId p p' runId) :
    RunsAgree threadId (runs.set run) p' := by
  intro run' hrun'
  rcases Table.mem_set.mp hrun' with rfl | ⟨hmem, hne⟩
  · exact ⟨row, hfind, hthread, hrow⟩
  · obtain ⟨row', hfind', hthread', hrow'⟩ := h run' hmem
    exact (hkeep run'.id hne).held hfind' hthread' hrow'

variable {runId : String}

theorem RunsAgree.runOf {threadId : String} (h : RunsAgree threadId runs p) (hfind : runs.find? runId = some run) :
    ∃ row, p.runs.find? runId = some row ∧ row.threadId = threadId ∧ p.withCheckpoint row = run := by
  obtain ⟨row, hrow, hthread, hrun⟩ := h run (Table.mem_of_find? hfind)
  rw [Table.key_of_find? hfind] at hrow
  exact ⟨row, hrow, hthread, hrun⟩

/-! ### Items -/

variable {items : Table (@TurnItemOf.id Int)}

/-- Where the thread's ordinary items stay and none of them comes into the window, the held items
still agree. -/
theorem ItemsAgree.keep {threadId : String} (h : ItemsAgree threadId items p)
    (hrows : ∀ row, row.threadId = threadId → row.body.body.type ≠ .checkpoint →
      (row ∈ p'.turnItems.rows ↔ row ∈ p.turnItems.rows))
    (hwindow : ∀ row ∈ p.turnItems.rows, row.threadId = threadId → row.body.body.type ≠ .checkpoint →
      row.position < p.snapshotFrom threadId → row.position < p'.snapshotFrom threadId) :
    ItemsAgree threadId items p' where
  inWindow row hrow hthread hbody hpos := by
    have hold := (hrows row hthread hbody).mp hrow
    by_cases hold' : row.position < p.snapshotFrom threadId
    · exact absurd (hwindow row hold hthread hbody hold') (not_lt.mpr hpos)
    · exact h.inWindow row hold hthread hbody (not_lt.mp hold')
  held item hitem hbody := by
    obtain ⟨row, hrow, hthread, rfl⟩ := h.held item hitem hbody
    exact ⟨row, (hrows row hthread hbody).mpr hrow, hthread, rfl⟩

theorem ItemsAgree.set {threadId : String} (row : TurnItemRow) (h : ItemsAgree threadId items p)
    (hp' : p'.turnItems = p.turnItems.set row) (hthread : row.threadId = threadId)
    (hwindow : ∀ row' ∈ p.turnItems.rows, row'.threadId = threadId → row'.body.body.type ≠ .checkpoint →
      row'.id ≠ row.id → row'.position < p.snapshotFrom threadId → row'.position < p'.snapshotFrom threadId) :
    ItemsAgree threadId (items.set row.body) p' where
  inWindow row' hrow' hthread' hbody hpos := by
    rw [hp'] at hrow'
    rcases Table.mem_set.mp hrow' with rfl | ⟨hold, hne⟩
    · exact Table.mem_set.mpr (.inl rfl)
    · refine Table.mem_set.mpr (.inr ⟨?_, hne⟩)
      by_cases hold' : row'.position < p.snapshotFrom threadId
      · exact absurd (hwindow row' hold hthread' hbody hne hold') (not_lt.mpr hpos)
      · exact h.inWindow row' hold hthread' hbody (not_lt.mp hold')
  held item hitem hbody := by
    rw [hp']
    rcases Table.mem_set.mp hitem with rfl | ⟨hold, hne⟩
    · exact ⟨row, Table.mem_set.mpr (.inl rfl), hthread, rfl⟩
    · obtain ⟨row', hrow', hthread', rfl⟩ := h.held item hold hbody
      exact ⟨row', Table.mem_set.mpr (.inr ⟨hrow', hne⟩), hthread', rfl⟩

/-! ### Requests -/

theorem RequestsAgree.set {threadId : String} {requests : Table (fun r : RuntimeRequest => r.id)} (row : RequestRow)
    (h : RequestsAgree threadId requests p) (hp' : p'.runtimeRequests = p.runtimeRequests.set row)
    (hthread : row.body.threadId = threadId) :
    RequestsAgree threadId (requests.set row.body) p' := by
  intro r hr
  rw [Table.mem_set, hp']
  constructor
  · rintro (rfl | ⟨hmem, hne⟩)
    · exact ⟨hthread, row, Table.mem_set.mpr (.inl rfl), rfl⟩
    · obtain ⟨hthread', old, hold, rfl⟩ := (h r hr).mp hmem
      exact ⟨hthread', old, Table.mem_set.mpr (.inr ⟨hold, hne⟩), rfl⟩
  · rintro ⟨hthread', old, hold, rfl⟩
    rcases Table.mem_set.mp hold with rfl | ⟨hold, hne⟩
    · exact .inl rfl
    · exact .inr ⟨(h _ hr).mpr ⟨hthread', old, hold, rfl⟩, hne⟩

theorem RequestsAgree.keep {threadId : String} {requests : Table (fun r : RuntimeRequest => r.id)}
    (h : RequestsAgree threadId requests p)
    (hrows : ∀ row, row.body.threadId = threadId → (row ∈ p'.runtimeRequests.rows ↔ row ∈ p.runtimeRequests.rows)) :
    RequestsAgree threadId requests p' := by
  intro r hr
  rw [h r hr]
  refine and_congr_right fun hthread => exists_congr fun row => ?_
  constructor
  · rintro ⟨hrow, rfl⟩
    exact ⟨(hrows row hthread).mpr hrow, rfl⟩
  · rintro ⟨hrow, rfl⟩
    exact ⟨(hrows row hthread).mp hrow, rfl⟩

/-! ### Checkpoints -/

theorem mem_set_checkpointItem {threadId : String} {itemRow row : TurnItemRow}
    (hfree : CheckpointItemFree threadId p runId) (hid : itemRow.id = checkpointItemId runId)
    (htype : itemRow.body.body.type = .checkpoint) (hthread : row.threadId = threadId)
    (hbody : row.body.body.type ≠ .checkpoint) :
    row ∈ (p.turnItems.set itemRow).rows ↔ row ∈ p.turnItems.rows := by
  rw [Table.mem_set]
  constructor
  · rintro (rfl | ⟨hrow, -⟩)
    · exact absurd htype hbody
    · exact hrow
  · intro hrow
    refine .inr ⟨hrow, fun hsame => hbody (hfree row ?_ hthread)⟩
    rw [Option.mem_def, Table.find?_eq_some_iff]
    exact ⟨hrow, hsame.trans hid⟩

variable {c : RunCheckpoint} {phase : CheckpointPhase} {extra : CapturedExtra}

/-- After a captured checkpoint that is not an ignored start, the run's row reads back as the record
the event carries. -/
theorem RecordReadsBack.find? {event : StoredEvent} (hback : RecordReadsBack p c phase extra event.ts)
    (hrun : p.runs.has c.runId = true)
    (hpending : phase = .start → ∀ row, p.runCheckpoints.find? c.runId = some row → row.status = .pending)
    (h : p.applyCheckpointCaptured event c phase extra = .ok p') :
    (p'.runCheckpoints.find? c.runId).map checkpointFromRow = some c := by
  rcases Projection.applyCheckpointCaptured_cases h with
    ⟨rfl, hnone | ⟨rfl, hsome⟩ | ⟨rfl, row, hrow, hend⟩⟩ | ⟨rfl, -, hnone, rfl⟩ |
      ⟨rfl, -, hopen, row, hrow, rfl⟩
  · simp [hrun] at hnone
  · obtain ⟨row, hrow⟩ := Option.isSome_iff_exists.mp hsome
    simp only [RecordReadsBack, hrow] at hback
    simp [hrow, hback (hpending rfl row hrow)]
  · simp only [RecordReadsBack, hrow, hend, if_true] at hback
    simp [hrow, hback]
  · simp only [RecordReadsBack, hnone] at hback
    have hset : (p.runCheckpoints.set (Projection.checkpointStartRow c extra event.ts)).find?
        c.runId = some (Projection.checkpointStartRow c extra event.ts) :=
      Table.find?_set_self _ (Projection.checkpointStartRow c extra event.ts)
    simp only [hset, Option.map_some, hback]
  · obtain ⟨itemRow, -, -, hitem⟩ := Projection.upsertCheckpointItem_eq
      ({ p with runCheckpoints := p.runCheckpoints.set row } : Projection) row event.sequence event.ts
    have hset : (p.runCheckpoints.set row).find? c.runId = some row := by
      have hself := Table.find?_set_self p.runCheckpoints row
      rwa [show row.runId = c.runId by rw [hrow]; rfl] at hself
    rw [hitem]
    simp only [hset, Option.map_some, Option.some.injEq]
    cases hold : p.runCheckpoints.find? c.runId with
    | none =>
      rw [hold] at hrow
      simp only [RecordReadsBack, hold] at hback
      rw [hrow, hback]
    | some old =>
      rw [hold] at hrow
      simp only [RecordReadsBack, hold, hopen old hold, Bool.false_eq_true, if_false] at hback
      rw [hrow, hback]

/-! ### One event on both sides -/

/-- What the thread's stream makes of an event: other threads' events are not on it. -/
def threadDelivered (s : ThreadState) (event : StoredEvent) : ThreadState :=
  if event.threadId = some s.threadId then threadEvent s event.frame else s

attribute [local simp] threadDelivered threadEvent Payload.toJson ServerPayload.toWire

theorem KeepsWindow.lt {threadId : String} {event : StoredEvent} (hkeep : KeepsWindow threadId p event)
    (h : p.applyEvent event = .ok p') :
    ∀ row ∈ p.turnItems.rows, row.threadId = threadId → row.body.body.type ≠ .checkpoint →
      carriedItem event ≠ some row.id → row.position < p.snapshotFrom threadId →
        row.position < p'.snapshotFrom threadId := by
  simpa only [KeepsWindow, h] using hkeep

theorem KeepsWindow.lt_of_none {threadId : String} {event : StoredEvent}
    (hkeep : KeepsWindow threadId p event) (h : p.applyEvent event = .ok p') (hnone : carriedItem event = none) :
    ∀ row ∈ p.turnItems.rows, row.threadId = threadId → row.body.body.type ≠ .checkpoint →
      row.position < p.snapshotFrom threadId → row.position < p'.snapshotFrom threadId := by
  intro row hrow hthread hbody
  exact hkeep.lt h row hrow hthread hbody (by rw [hnone]; nofun)

variable {s : ThreadState}

theorem agrees_threadPatch {event : StoredEvent} (hs : ThreadAgrees s p)
    (htype : event.payload.type ∈ THREAD_PATCH_TYPES) (hclear : p.ClearsNothing event)
    (h : p.applyEvent event = .ok p') :
    ThreadAgrees (threadDelivered s event) p' := by
  obtain ⟨threadId, thread, row, hid, hne, hfind, hrow, rfl, hmirror⟩ := patchThread_mirrors htype hclear h
  obtain ⟨mine, old, hmine, hold, hsame⟩ := hs.thread
  unfold threadDelivered
  split_ifs with hown
  · have hthread : threadId = s.threadId := Option.some.inj (hid.symm.trans hown)
    subst hthread
    obtain rfl := Option.some.inj (hfind.symm.trans hold)
    obtain ⟨next, hnext, hnextrow⟩ := hmirror mine hsame
    have hstate : threadEvent s event.frame = { s with thread := some next, sequence := event.sequence } := by
      have hbind : s.thread.bind (patchThread · event.frame) = some next := by
        rw [hmine]
        exact hnext
      unfold threadEvent
      cases hpay : event.payload with
      | threadUpdated | threadShelfChanged | threadArchived =>
        simp only [hbind, StoredEvent.payload_frame, hpay, Payload.toJson, ServerPayload.toWire,
          StoredEvent.sequence_frame]
      | _ => simp [hpay, THREAD_PATCH_TYPES, Payload.type] at htype
    rw [hstate]
    refine ⟨⟨next, row, rfl, ?_, hnextrow⟩, hs.runs, ⟨hs.items.inWindow, hs.items.held⟩, hs.requests, hs.queue⟩
    rw [Table.find?_set, if_pos hrow]
  · have hother : row.id ≠ s.threadId := fun hsame => hown (hid.trans (by rw [← hrow, hsame]))
    refine ⟨⟨mine, old, hmine, ?_, hsame⟩, hs.runs, ⟨hs.items.inWindow, hs.items.held⟩, hs.requests, hs.queue⟩
    rw [Table.find?_set_of_ne _ hother]
    exact hold

section

variable {threadId : String}

theorem agrees_threadDeleted (hs : ThreadAgrees s p) (hother : threadId ≠ s.threadId)
    (hcheckpoints : ∀ c ∈ p.runCheckpoints.rows, RunOf s.threadId p c.runId → c.threadId ≠ threadId)
    (hwindow : ∀ row ∈ p.turnItems.rows, row.threadId = s.threadId → row.body.body.type ≠ .checkpoint →
      row.position < p.snapshotFrom s.threadId → row.position < (p.deleteThread threadId).snapshotFrom s.threadId) :
    ThreadAgrees s (p.deleteThread threadId) where
  thread := by
    obtain ⟨mine, old, hmine, hold, hsame⟩ := hs.thread
    refine ⟨mine, old, hmine, ?_, hsame⟩
    have hid : old.id ≠ threadId := by
      rw [Table.key_of_find? hold]
      exact Ne.symm hother
    rw [Projection.deleteThread, Table.find?_filter, hold, Option.filter_some_pos (by simpa using hid)]
  runs := by
    refine hs.runs.keep fun run _ row hrow hthread => ?_
    have hne : row.threadId ≠ threadId := by
      rw [hthread]
      exact Ne.symm hother
    have hruns : (p.runs.filter fun r => decide (r.threadId ≠ threadId)).find? run.id = some row := by
      rw [Table.find?_filter, hrow, Option.filter_some_pos (by simpa using hne)]
    refine ⟨hruns, ?_⟩
    rw [Projection.deleteThread, Table.find?_filter]
    cases hc : p.runCheckpoints.find? run.id with
    | none => rfl
    | some c =>
      have hrunId : c.runId = run.id := Table.key_of_find? hc
      have hkeep := hcheckpoints c (Table.mem_of_find? hc) ⟨row, by rw [hrunId]; exact hrow, hthread⟩
      refine Option.filter_some_pos ?_
      simp only [ne_eq, Bool.and_eq_true, decide_eq_true_eq, hrunId, Table.has]
      exact ⟨hkeep, by rw [hruns]; rfl⟩
  items := by
    refine hs.items.keep (fun row hthread _ => ?_) hwindow
    have hne : row.threadId ≠ threadId := by
      rw [hthread]
      exact Ne.symm hother
    simp [Projection.deleteThread, hne]
  requests := by
    refine hs.requests.keep fun row hthread => ?_
    have hne : row.body.threadId ≠ threadId := by
      rw [hthread]
      exact Ne.symm hother
    simp [Projection.deleteThread, hne]
  queue := by
    rw [hs.queue, Projection.listQueued, Projection.listQueued, Projection.deleteThread,
      Table.rows_filter, List.filter_filter]
    congr 1
    refine List.filter_congr fun m _ => ?_
    by_cases hm : m.threadId = s.threadId
    · simp [hm, Ne.symm hother]
    · simp [hm]

theorem keepsRun_of_ne (hne : runId ≠ run.id) :
    KeepsRun threadId p { p with runs := p.runs.set run } runId := by
  intro row hrow _
  refine ⟨?_, rfl⟩
  rw [Table.find?_set_of_ne _ (Ne.symm hne), hrow]

theorem find?_runs_cases (hs : ThreadAgrees s p) (runId : String) : s.runs.find? runId = none ∨
      ∃ row, s.runs.find? runId = some (p.withCheckpoint row) ∧ p.runs.find? runId = some row ∧
        row.threadId = s.threadId := by
  cases hmine : s.runs.find? runId with
  | none => exact .inl rfl
  | some mine =>
    obtain ⟨row, hrow, hthread, rfl⟩ := hs.runs.runOf hmine
    exact .inr ⟨row, rfl, hrow, hthread⟩

/-- What a checkpoint event does to a thread: it rewrites the row of one run, and no ordinary item. -/
structure CheckpointStep (threadId : String) (p p' : Projection) (runId : String) : Prop where
  shape : ∃ turnItems runCheckpoints, p' = { p with turnItems, runCheckpoints }
  items : ∀ row, row.threadId = threadId → row.body.body.type ≠ .checkpoint →
    (row ∈ p'.turnItems.rows ↔ row ∈ p.turnItems.rows)
  others : ∀ id, id ≠ runId → p'.runCheckpoints.find? id = p.runCheckpoints.find? id

private theorem CheckpointStep.refl {p : Projection} {runId : String} :
    CheckpointStep threadId p p runId :=
  ⟨⟨_, _, rfl⟩, fun _ _ _ => Iff.rfl, fun _ _ => rfl⟩

private theorem CheckpointStep.row (row : CheckpointDbRow) :
    CheckpointStep threadId p { p with runCheckpoints := p.runCheckpoints.set row } row.runId :=
  ⟨⟨_, _, rfl⟩, fun _ _ _ => Iff.rfl, fun _ hne => Table.find?_set_of_ne _ (Ne.symm hne)⟩

theorem CheckpointStep.rowAndItem (row : CheckpointDbRow)
    (hfree : CheckpointItemFree threadId p row.runId) (sequence : Nat) (ts : Int) : CheckpointStep threadId p
      (({ p with runCheckpoints := p.runCheckpoints.set row } : Projection).upsertCheckpointItem
        row sequence ts) row.runId := by
  obtain ⟨itemRow, hid, htype, hitem⟩ := Projection.upsertCheckpointItem_eq
    ({ p with runCheckpoints := p.runCheckpoints.set row } : Projection) row sequence ts
  rw [hitem]
  exact ⟨⟨_, _, rfl⟩, fun _ hthread hbody => mem_set_checkpointItem hfree hid htype hthread hbody,
    fun _ hne => Table.find?_set_of_ne _ (Ne.symm hne)⟩

theorem checkpointStep_captured {event : StoredEvent}
    (hfree : CheckpointItemFree threadId p c.runId) (h : p.applyCheckpointCaptured event c phase extra = .ok p') :
    CheckpointStep threadId p p' c.runId := by
  rcases Projection.applyCheckpointCaptured_cases h with
    ⟨rfl, -⟩ | ⟨-, -, -, rfl⟩ | ⟨-, -, -, row, hrow, rfl⟩
  · exact .refl
  · exact .row (Projection.checkpointStartRow c extra event.ts)
  · have hid : row.runId = c.runId := by
      rw [hrow]
      rfl
    rw [← hid] at hfree ⊢
    exact .rowAndItem row hfree event.sequence event.ts

theorem checkpointStep_expired (hfree : CheckpointItemFree threadId p runId) :
    CheckpointStep threadId p (p.applyCheckpointExpired event runId) runId := by
  unfold Projection.applyCheckpointExpired
  split
  · exact .refl
  · rename_i old hold
    obtain rfl := Table.key_of_find? hold
    split_ifs
    · exact .refl
    · dsimp only
      split_ifs
      · exact .rowAndItem { old with objectsExpiredAt := some event.ts } hfree event.sequence event.ts
      · exact .row { old with objectsExpiredAt := some event.ts }

end

theorem agrees_checkpointKept (hs : ThreadAgrees s p) (hstep : CheckpointStep s.threadId p p' runId)
    (hwindow : ∀ row ∈ p.turnItems.rows, row.threadId = s.threadId → row.body.body.type ≠ .checkpoint →
      row.position < p.snapshotFrom s.threadId → row.position < p'.snapshotFrom s.threadId)
    (hkept : s.runs.find? runId = none ∨ p'.runCheckpoints.find? runId = p.runCheckpoints.find? runId) :
    ThreadAgrees s p' := by
  have hitems := hs.items.keep hstep.items hwindow
  obtain ⟨turnItems, runCheckpoints, rfl⟩ := hstep.shape
  refine ⟨hs.thread, hs.runs.keep fun run hrun row hrow _ => ⟨hrow, ?_⟩, hitems, hs.requests, hs.queue⟩
  by_cases hid : run.id = runId
  · rcases hkept with hnone | hsame
    · exact absurd hid (Table.find?_eq_none_iff.mp hnone run hrun)
    · rw [hid]
      exact hsame
  · exact hstep.others run.id hid

theorem agrees_checkpointSet (hs : ThreadAgrees s p) (hstep : CheckpointStep s.threadId p p' run.id)
    (hwindow : ∀ row ∈ p.turnItems.rows, row.threadId = s.threadId → row.body.body.type ≠ .checkpoint →
      row.position < p.snapshotFrom s.threadId → row.position < p'.snapshotFrom s.threadId)
    (hfind : p.runs.find? run.id = some run) (hthread : run.threadId = s.threadId) (sequence : Nat) :
    ThreadAgrees { s with runs := s.runs.set (p'.withCheckpoint run), sequence } p' := by
  have hitems := hs.items.keep hstep.items hwindow
  have hothers := hstep.others
  obtain ⟨turnItems, runCheckpoints, rfl⟩ := hstep.shape
  exact ⟨hs.thread, hs.runs.set run hfind hthread rfl fun id hne _ hrow _ => ⟨hrow, hothers id hne⟩,
    ⟨hitems.inWindow, hitems.held⟩, hs.requests, hs.queue⟩

theorem checkpointFromRow_expired {row : CheckpointDbRow} (hstatus : row.status ≠ .absent)
    (hcommit : row.startCommit ≠ none) (at_ : Int) :
    checkpointFromRow { row with objectsExpiredAt := some at_ } =
      { checkpointFromRow row with live := some false } := by
  simp [checkpointFromRow, hstatus, hcommit]

theorem find?_expired {row : CheckpointDbRow}
    (hrow : p.runCheckpoints.find? runId = some row) (hstatus : row.status ≠ .absent)
    (hcommit : row.startCommit ≠ none) :
    ((p.applyCheckpointExpired event runId).runCheckpoints.find? runId).map checkpointFromRow =
      some { checkpointFromRow row with live := some false } := by
  obtain rfl := Table.key_of_find? hrow
  unfold Projection.applyCheckpointExpired
  simp only [hrow]
  split_ifs with hexpired hitem
  · obtain ⟨at_, hat⟩ := Option.isSome_iff_exists.mp hexpired
    have hsame : row = { row with objectsExpiredAt := some at_ } := by rw [← hat]
    simp only [hrow, Option.map_some, ← checkpointFromRow_expired hstatus hcommit at_, ← hsame]
  · obtain ⟨itemRow, -, -, hset⟩ := Projection.upsertCheckpointItem_eq
      ({ p with runCheckpoints := p.runCheckpoints.set { row with objectsExpiredAt := some event.ts } } :
        Projection) { row with objectsExpiredAt := some event.ts } event.sequence event.ts
    have hself := Table.find?_set_self p.runCheckpoints { row with objectsExpiredAt := some event.ts }
    rw [hset]
    exact (congrArg (Option.map checkpointFromRow) hself).trans
      (congrArg some (checkpointFromRow_expired hstatus hcommit event.ts))
  · have hself := Table.find?_set_self p.runCheckpoints { row with objectsExpiredAt := some event.ts }
    exact (congrArg (Option.map checkpointFromRow) hself).trans
      (congrArg some (checkpointFromRow_expired hstatus hcommit event.ts))

section

variable {event : StoredEvent} (hs : ThreadAgrees s p) (hm : ThreadMirrors s.threadId p event)
  (h : p.applyEvent event = .ok p')
include hs hm h

theorem agrees_runStarted (hfk : p.CheckpointRuns) (hpay : event.payload = .runStarted run) :
    ThreadAgrees (threadDelivered s event) p' := by
  have hwindow := hm.keepsWindow.lt_of_none h (by simp [carriedItem, hpay])
  have hsays := hm.saysRows
  simp only [SaysRows, hpay] at hsays
  simp only [Projection.applyEvent, hpay, Projection.insertRun_eq_ok] at h
  obtain ⟨runs, hinsert, -, rfl⟩ := h
  have hfind := Table.find?_insert? hinsert
  have hnew : p.runs.find? run.id = none := by
    obtain ⟨hnew, -⟩ := Table.insert?_eq_some_iff.mp hinsert
    exact Table.find?_eq_none_iff.mpr fun r hr hid => hnew (List.mem_map.mpr ⟨r, hr, hid⟩)
  have hkeep (runId : String) : KeepsRun s.threadId p { p with runs } runId := by
    intro row hrow _
    refine ⟨?_, rfl⟩
    rw [hfind, if_neg, hrow]
    rintro rfl
    rw [show (runColumns run).id = run.id from rfl, hnew] at hrow
    cases hrow
  have hitems : ItemsAgree s.threadId s.items { p with runs } := hs.items.keep (fun _ _ _ => Iff.rfl) hwindow
  have hold : ThreadAgrees s { p with runs } :=
    ⟨hs.thread, hs.runs.keep fun r _ => hkeep r.id, hitems, hs.requests, hs.queue⟩
  unfold threadDelivered
  split_ifs with hown
  · by_cases hthread : run.threadId = s.threadId
    · have hcheckpoint := hsays hthread hown
      have hheld : s.runs.find? run.id = none := by
        cases hmine : s.runs.find? run.id with
        | none => rfl
        | some mine =>
          obtain ⟨row, hrow, -⟩ := hs.runs.runOf hmine
          rw [hnew] at hrow
          cases hrow
      have hstate : threadEvent s event.frame = { s with runs := s.runs.set run, sequence := event.sequence } := by
        have hplain : keepCheckpoint none run = run := by
          unfold keepCheckpoint
          split_ifs
          · rfl
          · rw [← hcheckpoint]
        simp [hpay, hthread, hheld, hplain]
      have hrow : runs.find? run.id = some (runColumns run) := (hfind run.id).trans (if_pos rfl)
      have hnone : p.runCheckpoints.find? run.id = none := by
        refine Table.find?_eq_none_iff.mpr fun row hrow hid => ?_
        have hhas := hfk row hrow
        rw [Table.has, hid, hnew] at hhas
        cases hhas
      rw [hstate]
      refine ⟨hs.thread, hs.runs.set (runColumns run) hrow hthread ?_ fun runId _ => hkeep runId,
        ⟨hitems.inWindow, hitems.held⟩, hs.requests, hs.queue⟩
      simp only [Projection.withCheckpoint, runColumns, hnone, Option.map_none]
      rw [← hcheckpoint]
    · have hstate : threadEvent s event.frame = s := by simp [hpay, hthread]
      rw [hstate]
      exact hold
  · exact hold

theorem agrees_runEnded {status : RunStatus} {completedAt : Int}
    (hpay : event.payload = .runEnded runId status completedAt) : ThreadAgrees (threadDelivered s event) p' := by
  have hwindow := hm.keepsWindow.lt_of_none h (by simp [carriedItem, hpay])
  have hsays := hm.saysRows
  simp only [SaysRows, hpay] at hsays
  simp only [Projection.applyEvent, hpay, Projection.updateRun_eq_ok] at h
  obtain ⟨run, hrun, rfl⟩ := h
  obtain rfl := Table.key_of_find? hrun
  have hitems : ItemsAgree s.threadId s.items { p with
      runs := p.runs.set { run with status, completedAt := some completedAt } } :=
    hs.items.keep (fun _ _ _ => Iff.rfl) hwindow
  cases hmine : s.runs.find? run.id with
  | none =>
    have hstate : threadDelivered s event = s := by simp [hpay, hmine]
    rw [hstate]
    refine ⟨hs.thread, hs.runs.keep fun r hr => keepsRun_of_ne fun hid => ?_, hitems, hs.requests, hs.queue⟩
    exact Table.find?_eq_none_iff.mp hmine r hr hid
  | some mine =>
    obtain ⟨row, hrow, hthread, rfl⟩ := hs.runs.runOf hmine
    obtain rfl := Option.some.inj (hrun.symm.trans hrow)
    have hown := hsays ⟨run, hrun, hthread⟩
    have hstate : threadDelivered s event = { s with
          runs := s.runs.set { p.withCheckpoint run with status, completedAt := some completedAt }
          sequence := event.sequence } := by
      simp [hown, hpay, hmine]
    rw [hstate]
    have hself := Table.find?_set_self p.runs { run with status, completedAt := some completedAt }
    exact ⟨hs.thread, hs.runs.set _ hself hthread rfl fun id hne => keepsRun_of_ne hne,
      ⟨hitems.inWindow, hitems.held⟩, hs.requests, hs.queue⟩

theorem agrees_runUpdated {update : Run} (hpay : event.payload = .runUpdated update) : ThreadAgrees s p' := by
  have hwindow := hm.keepsWindow.lt_of_none h (by simp [carriedItem, hpay])
  have hsays := hm.saysRows
  simp only [SaysRows, hpay] at hsays
  simp only [Projection.applyEvent, hpay, Projection.updateRun_eq_ok] at h
  obtain ⟨run, hrun, rfl⟩ := h
  have hid : run.id = update.id := Table.key_of_find? hrun
  refine ⟨hs.thread, hs.runs.keep fun r _ => ?_, hs.items.keep (fun _ _ _ => Iff.rfl) hwindow,
    hs.requests, hs.queue⟩
  by_cases hr : r.id = run.id
  · intro row hrow hthread
    rw [hr, hid] at hrow
    obtain rfl := Option.some.inj (hrun.symm.trans hrow)
    obtain ⟨huser, hstatus, hcompleted⟩ := hsays run hrun hthread
    refine ⟨?_, rfl⟩
    rw [hr, ← huser, ← hstatus, ← hcompleted]
    exact Table.find?_set_self p.runs run
  · exact keepsRun_of_ne hr

theorem agrees_turnItem {item : TurnItemDraft} (hpay : event.payload = .turnItemUpdated item) :
    ThreadAgrees (threadDelivered s event) p' := by
  have hwindow := hm.keepsWindow.lt h
  have hsays := hm.saysRows
  simp only [SaysRows, hpay] at hsays
  simp only [Projection.applyEvent, hpay] at h
  cases hordinal : item.ordinal with
  | none => simp [hordinal] at h
  | some ordinal =>
    simp only [hordinal, Projection.upsertTurnItem_eq_ok] at h
    obtain ⟨-, rfl⟩ := h
    by_cases hthread : item.threadId = s.threadId
    · rw [if_pos hthread] at hsays
      have hstate : threadDelivered s event =
          { s with items := s.items.set (item.at ordinal), sequence := event.sequence } := by
        simp [hpay, hsays, hthread, hordinal]
      have hset : ItemsAgree s.threadId (s.items.set (item.at ordinal)) { p with
          turnItems := p.turnItems.set (Projection.itemRow (item.at ordinal) event.sequence) } := by
        refine hs.items.set (Projection.itemRow (item.at ordinal) event.sequence) rfl hthread
          fun row hrow hrowThread hbody hne hpos => ?_
        refine hwindow row hrow hrowThread hbody ?_ hpos
        simp only [carriedItem, hpay, ne_eq, Option.some.injEq]
        exact Ne.symm hne
      rw [hstate]
      exact ⟨hs.thread, hs.runs, ⟨hset.inWindow, hset.held⟩, hs.requests, hs.queue⟩
    · rw [if_neg hthread] at hsays
      have hstate : threadDelivered s event = s := by simp [hpay, hthread]
      rw [hstate]
      refine ⟨hs.thread, hs.runs, hs.items.keep (fun row hrowThread _ => ?_) ?_, hs.requests, hs.queue⟩
      · rw [Table.mem_set]
        constructor
        · rintro (rfl | ⟨hrow, -⟩)
          · exact absurd hrowThread hthread
          · exact hrow
        · intro hrow
          refine .inr ⟨hrow, fun hsame => hsays row ?_ hrowThread⟩
          rw [Option.mem_def, Table.find?_eq_some_iff]
          exact ⟨hrow, hsame⟩
      · intro row hrow hrowThread hbody hpos
        refine hwindow row hrow hrowThread hbody ?_ hpos
        simp only [carriedItem, hpay, ne_eq, Option.some.injEq]
        intro hsame
        refine hsays row ?_ hrowThread
        rw [Option.mem_def, Table.find?_eq_some_iff]
        exact ⟨hrow, hsame.symm⟩

theorem agrees_request {request : RuntimeRequest} {boundText : Option String}
    (hpay : event.payload = .runtimeRequestUpdated request boundText) : ThreadAgrees (threadDelivered s event) p' := by
  have hsays := hm.saysRows
  simp only [SaysRows, hpay] at hsays
  simp only [Projection.applyEvent, hpay, Projection.upsertRequest_eq_ok] at h
  obtain ⟨-, rfl⟩ := h
  by_cases hthread : request.threadId = s.threadId
  · rw [if_pos hthread] at hsays
    have hstate : threadDelivered s event =
        { s with requests := s.requests.set request, sequence := event.sequence } := by
      simp [hpay, hsays, hthread]
    have hset : RequestsAgree s.threadId (s.requests.set request) { p with
        runtimeRequests := p.runtimeRequests.set (p.requestRow request boundText event.sequence) } :=
      hs.requests.set (p.requestRow request boundText event.sequence) rfl hthread
    rw [hstate]
    exact ⟨hs.thread, hs.runs, ⟨hs.items.inWindow, hs.items.held⟩, hset, hs.queue⟩
  · rw [if_neg hthread] at hsays
    have hstate : threadDelivered s event = s := by simp [hpay, hthread]
    rw [hstate]
    refine ⟨hs.thread, hs.runs, ⟨hs.items.inWindow, hs.items.held⟩,
      hs.requests.keep fun row hrowThread => ?_, hs.queue⟩
    rw [Table.mem_set]
    constructor
    · rintro (rfl | ⟨hrow, -⟩)
      · exact absurd hrowThread hthread
      · exact hrow
    · intro hrow
      refine .inr ⟨hrow, fun hsame => hsays row ?_ hrowThread⟩
      rw [Option.mem_def, Table.find?_eq_some_iff]
      exact ⟨hrow, hsame⟩

theorem agrees_queue {messages : List QueuedMessage} {change : Option QueueChange} {reason : Option String}
    (hpay : event.payload = .queueUpdated messages change reason) : ThreadAgrees (threadDelivered s event) p' := by
  have hsays := hm.saysRows
  simp only [SaysRows, hpay] at hsays
  simp only [Projection.applyEvent, hpay] at h
  obtain ⟨owner, howner, h⟩ := Except.bind_eq_ok.mp h
  obtain ⟨hid, -⟩ := requireThreadId_eq_ok.mp howner
  have hqueue := fun id => @Projection.listQueued_of_replaceQueue p p' owner id messages h
  obtain ⟨queuedMessages, -, -, rfl⟩ := Projection.replaceQueue_eq_ok.mp h
  unfold threadDelivered
  split_ifs with hown
  · have hthread : owner = s.threadId := Option.some.inj (hid.symm.trans hown)
    have hmessages : (messages.map fun m => { m with threadId := s.threadId }) = messages := by
      refine (List.map_congr_left fun m hmem => ?_).trans (List.map_id messages)
      rw [← hsays hown m hmem]
      rfl
    have hown' := hqueue s.threadId
    rw [if_pos hthread, hmessages] at hown'
    have hstate : ∃ auto, threadEvent s event.frame =
        { s with queue := byPosition messages, queueAutoResume := auto, sequence := event.sequence } := by
      simp only [threadEvent, StoredEvent.payload_frame, hpay, Payload.toJson, ServerPayload.toWire]
      split_ifs
      · exact ⟨_, rfl⟩
      · exact ⟨_, rfl⟩
    obtain ⟨auto, hstate⟩ := hstate
    rw [hstate]
    exact ⟨hs.thread, hs.runs, ⟨hs.items.inWindow, hs.items.held⟩, hs.requests, hown'.symm⟩
  · have hthread : owner ≠ s.threadId := fun hsame => hown (hid.trans (by rw [hsame]))
    have hother := hqueue s.threadId
    rw [if_neg hthread] at hother
    exact ⟨hs.thread, hs.runs, ⟨hs.items.inWindow, hs.items.held⟩, hs.requests, hs.queue.trans hother.symm⟩

theorem agrees_checkpointCaptured (hpay : event.payload = .checkpointCaptured c phase extra) :
    ThreadAgrees (threadDelivered s event) p' := by
  have hwindow := hm.keepsWindow.lt_of_none h (by simp [carriedItem, hpay])
  have hsays := hm.saysRows
  simp only [SaysRows, hpay] at hsays
  simp only [Projection.applyEvent, hpay] at h
  have hstep := checkpointStep_captured hsays.1 h
  rcases find?_runs_cases hs c.runId with hnone | ⟨run, hmine, hrun, hthread⟩
  · have hstate : threadDelivered s event = s := by simp [hpay, hnone]
    rw [hstate]
    exact agrees_checkpointKept hs hstep hwindow (.inl hnone)
  · obtain ⟨hown, hcthread, hback⟩ := hsays.2 ⟨run, hrun, hthread⟩
    have hid : run.id = c.runId := Table.key_of_find? hrun
    by_cases hguard : phase = .start ∧ ((p.withCheckpoint run).checkpoint.map (·.status) = some .ready ∨
        (p.withCheckpoint run).checkpoint.map (·.status) = some .absent)
    · -- The start comes after its end: both sides ignore it.
      have hstate : threadDelivered s event = s := by
        simp only [threadDelivered, hown, threadEvent, StoredEvent.payload_frame, hpay,
          Payload.toJson, ServerPayload.toWire, hmine, hcthread, hguard, ne_eq, not_true_eq_false,
          and_self, if_true, if_false]
      rw [hstate]
      refine agrees_checkpointKept hs hstep hwindow (.inr ?_)
      rcases Projection.applyCheckpointCaptured_cases h with
        ⟨rfl, -⟩ | ⟨-, -, hnone, -⟩ | ⟨hend, -⟩
      · rfl
      · simp [Projection.withCheckpoint, hid, hnone] at hguard
      · simp [hend] at hguard
    · have hstate : threadDelivered s event = { s with
            runs := s.runs.set { p.withCheckpoint run with checkpoint := some c }
            sequence := event.sequence } := by
        simp only [threadDelivered, hown, threadEvent, StoredEvent.payload_frame, hpay,
          Payload.toJson, ServerPayload.toWire, hmine, hcthread, hguard, ne_eq, not_true_eq_false,
          if_true, if_false, StoredEvent.sequence_frame]
      have hrecord : { p.withCheckpoint run with checkpoint := some c } = p'.withCheckpoint run := by
        have hfind := hback.find? (by rw [Table.has, hrun]; rfl) (fun hstart row hrow => ?_) h
        · rw [Projection.withCheckpoint, Projection.withCheckpoint, hid, hfind]
        · simp only [hstart, Projection.withCheckpoint, hid, hrow, Option.map_some, true_and,
            Option.some.injEq, not_or] at hguard
          cases hstatus : row.status with
          | pending => rfl
          | ready => exact absurd hstatus hguard.1
          | absent => exact absurd hstatus hguard.2
      rw [hstate, hrecord]
      rw [← hid] at hstep hrun
      exact agrees_checkpointSet hs hstep hwindow hrun hthread event.sequence

theorem agrees_checkpointExpired (hpay : event.payload = .checkpointExpired runId) :
    ThreadAgrees (threadDelivered s event) p' := by
  have hwindow := hm.keepsWindow.lt_of_none h (by simp [carriedItem, hpay])
  have hsays := hm.saysRows
  simp only [SaysRows, hpay] at hsays
  simp only [Projection.applyEvent, hpay, Except.ok.injEq] at h
  subst h
  have hstep := checkpointStep_expired event hsays.1
  rcases find?_runs_cases hs runId with hnone | ⟨run, hmine, hrun, hthread⟩
  · have hstate : threadDelivered s event = s := by simp [hpay, hnone]
    rw [hstate]
    exact agrees_checkpointKept hs hstep hwindow (.inl hnone)
  · have hid : run.id = runId := Table.key_of_find? hrun
    cases hrow : p.runCheckpoints.find? runId with
    | none =>
      have hstate : threadDelivered s event = s := by simp [hpay, hmine, Projection.withCheckpoint, hid, hrow]
      rw [hstate]
      refine agrees_checkpointKept hs hstep hwindow (.inr ?_)
      simp only [Projection.applyCheckpointExpired, hrow]
    | some row =>
      obtain ⟨hown, hstatus, hcommit⟩ := hsays.2 ⟨run, hrun, hthread⟩ row hrow
      have hrecord := find?_expired event hrow hstatus hcommit
      have hstate : threadDelivered s event = { s with
            runs := s.runs.set ((p.applyCheckpointExpired event runId).withCheckpoint run)
            sequence := event.sequence } := by
        simp [hown, hpay, hmine, Projection.withCheckpoint, hid, hrow, hrecord]
      rw [hstate]
      rw [← hid] at hstep hrun hwindow
      rw [← hid]
      exact agrees_checkpointSet hs hstep hwindow hrun hthread event.sequence

end

section

variable {event : StoredEvent}

/-- An accepted event that says on the wire what it does leaves the open thread with what the tables
then hold of it. -/
theorem ThreadAgrees.delivered (hs : ThreadAgrees s p) (hm : ThreadMirrors s.threadId p event)
    (hfk : p.CheckpointRuns) (hdel : event.payload.type = .threadDeleted → event.threadId ≠ some s.threadId)
    (h : p.applyEvent event = .ok p') : ThreadAgrees (threadDelivered s event) p' := by
  cases Projection.applied_of_applyEvent h with
  | threadUpdated hpay | threadShelfChanged hpay | threadArchived hpay =>
    exact agrees_threadPatch hs (by simp [hpay, THREAD_PATCH_TYPES, Payload.type]) hm.clearsNothing h
  | runStarted hpay => exact agrees_runStarted hs hm h hfk hpay
  | runEnded hpay => exact agrees_runEnded hs hm h hpay
  | turnItemUpdated hpay => exact agrees_turnItem hs hm h hpay
  | runtimeRequestUpdated hpay => exact agrees_request hs hm h hpay
  | queueUpdated hpay => exact agrees_queue hs hm h hpay
  | checkpointCaptured hpay => exact agrees_checkpointCaptured hs hm h hpay
  | checkpointExpired hpay => exact agrees_checkpointExpired hs hm h hpay
  | runUpdated hpay =>
    have hstate : threadDelivered s event = s := by simp [hpay]
    rw [hstate]
    exact agrees_runUpdated hs hm h hpay
  | projectUpserted hpay | projectClosed hpay =>
    simp only [threadDelivered, threadEvent, StoredEvent.payload_frame, hpay, Payload.toJson,
      ServerPayload.toWire, ite_self]
    exact ⟨hs.thread, hs.runs, ⟨hs.items.inWindow, hs.items.held⟩, hs.requests, hs.queue⟩
  | @threadCreated thread threads hpay hinsert =>
    obtain ⟨mine, row, hmine, hrow, hsame⟩ := hs.thread
    have hne : thread.id ≠ s.threadId := fun hid =>
      (Table.insert?_eq_some_iff.mp hinsert).1
        (List.mem_map.mpr ⟨row, Table.mem_of_find? hrow, (Table.key_of_find? hrow).trans hid.symm⟩)
    have hfind : threads.find? s.threadId = some row :=
      (Table.find?_insert? hinsert s.threadId).trans ((if_neg hne).trans hrow)
    simp only [threadDelivered, threadEvent, StoredEvent.payload_frame, hpay, Payload.toJson,
      ServerPayload.toWire, show (toWireThread thread).id ≠ s.threadId from hne, if_false, ite_self]
    exact ⟨⟨mine, row, hmine, hfind, hsame⟩, hs.runs, ⟨hs.items.inWindow, hs.items.held⟩, hs.requests, hs.queue⟩
  | @threadDeleted _ threadId hpay hid =>
    have hwindow := hm.keepsWindow.lt_of_none h (by simp [carriedItem, hpay])
    have hsays := hm.saysRows
    simp only [SaysRows, hpay] at hsays
    have hother : threadId ≠ s.threadId := fun hsame =>
      hdel (by rw [hpay]; rfl) (hid.trans (by rw [hsame]))
    simp only [threadDelivered, threadEvent, StoredEvent.payload_frame, hpay, Payload.toJson,
      ServerPayload.toWire, ite_self]
    refine agrees_threadDeleted hs hother (fun c hc hrun hsame => ?_) hwindow
    exact hsays c hc hrun (by rw [hsame, hid])
  | notice hnotice =>
    cases hpay : event.payload with
    | commandRejected | threadCreateFailed =>
      simpa [hpay] using hs
    | dispatchFailed =>
      simp only [threadDelivered, threadEvent, StoredEvent.payload_frame, hpay, Payload.toJson, ServerPayload.toWire]
      split_ifs
      · exact ⟨hs.thread, hs.runs, ⟨hs.items.inWindow, hs.items.held⟩, hs.requests, hs.queue⟩
      · exact hs
    | _ => simp [hpay, Payload.type] at hnotice

/-! ### Snapshots -/

theorem nodup_listRuns (p : Projection) (threadId : String) (limit : Nat) :
    ((p.listRuns threadId limit).map Run.id).Nodup := by
  refine List.Nodup.sublist ((List.drop_sublist _ _).map _) ?_
  exact ((List.perm_insertionSort _ _).map _).nodup_iff.mpr (p.runs.filter fun r => r.threadId = threadId).nodup

section

variable {threadId : String}

theorem mem_listRuns {limit : Nat} (h : run ∈ p.listRuns threadId limit) :
    run ∈ p.runs.rows ∧ run.threadId = threadId := by
  have hmem := (List.mem_insertionSort _).mp (List.mem_of_mem_drop h)
  simpa using hmem

theorem mem_itemRows {row : TurnItemRow} :
    row ∈ p.itemRows threadId ↔ row ∈ p.turnItems.rows ∧ row.threadId = threadId := by
  simp [Projection.itemRows]

theorem mem_requestsFor {r : RuntimeRequest} : r ∈ p.requestsFor threadId true ↔
      r.status = .pending ∧ r.threadId = threadId ∧ ∃ row ∈ p.runtimeRequests.rows, row.body = r := by
  simp only [Projection.requestsFor, List.mem_map, List.mem_insertionSort, List.mem_filter,
    Bool.and_eq_true, decide_eq_true_eq, Bool.not_true, Bool.false_or]
  constructor
  · rintro ⟨row, ⟨hrow, hthread, hpending⟩, rfl⟩
    exact ⟨hpending, hthread, row, hrow, rfl⟩
  · rintro ⟨hpending, hthread, row, hrow, rfl⟩
    exact ⟨row, ⟨hrow, hthread, hpending⟩, rfl⟩

theorem nodup_snapshotItems (p : Projection) (threadId : String) (start : Int) :
    ((((p.itemRows threadId).filter (start ≤ ·.position)).map (·.body)).map (@TurnItemOf.id Int)).Nodup := by
  rw [List.map_map]
  refine List.Nodup.sublist (List.filter_sublist.map _) ?_
  exact ((List.perm_insertionSort _ _).map _).nodup_iff.mpr (p.turnItems.filter fun r => r.threadId = threadId).nodup

theorem nodup_requestsFor (p : Projection) (threadId : String) :
    ((p.requestsFor threadId true).map fun r : RuntimeRequest => r.id).Nodup := by
  rw [Projection.requestsFor, List.map_map]
  exact ((List.perm_insertionSort _ _).map _).nodup_iff.mpr (p.runtimeRequests.filter fun r => _).nodup

private theorem pairwise_listQueued (p : Projection) (threadId : String) :
    (p.listQueued threadId).Pairwise (·.position ≤ ·.position) := by
  have htotal : Std.Total fun a b : QueuedMessage => a.position ≤ b.position :=
    ⟨fun a b => le_total a.position b.position⟩
  have htrans : IsTrans QueuedMessage fun a b => a.position ≤ b.position := ⟨fun _ _ _ hab hbc => le_trans hab hbc⟩
  exact List.pairwise_insertionSort _ _

variable {db : Db}

theorem threadFromSnapshot_agrees {snapshot : ThreadSnapshot}
    (h : db.snapshotThread threadId = some snapshot) (syncing : Bool) :
    (threadFromSnapshot snapshot syncing).threadId = threadId ∧
      (threadFromSnapshot snapshot syncing).sequence = db.seq ∧
      ThreadAgrees (threadFromSnapshot snapshot syncing) db.projection := by
  unfold Db.snapshotThread at h
  dsimp only at h
  cases hfind : db.projection.threads.find? threadId with
  | none => simp [hfind] at h
  | some thread =>
    simp only [hfind, Option.some.injEq] at h
    obtain rfl : thread.id = threadId := Table.key_of_find? hfind
    subst h
    refine ⟨rfl, rfl, ⟨toWireThread thread, thread, rfl, hfind, rfl⟩, ?_, ⟨?_, ?_⟩, ?_, ?_⟩
    · intro run hrun
      have hnodup : (((db.projection.listRuns thread.id SNAPSHOT_RUNS).map
          db.projection.withCheckpoint).map Run.id).Nodup := by
        rw [List.map_map]
        exact nodup_listRuns db.projection thread.id SNAPSHOT_RUNS
      obtain ⟨row, hrow, rfl⟩ := List.mem_map.mp ((Table.mem_ofList hnodup).mp hrun)
      obtain ⟨hmem, hthread⟩ := mem_listRuns hrow
      exact ⟨row, Table.find?_key hmem, hthread, rfl⟩
    · intro row hrow hthread _ hpos
      refine (Table.mem_ofList (nodup_snapshotItems db.projection thread.id _)).mpr ?_
      exact List.mem_map.mpr ⟨row, List.mem_filter.mpr ⟨mem_itemRows.mpr ⟨hrow, hthread⟩, decide_eq_true hpos⟩, rfl⟩
    · intro item hitem _
      have hmem := (Table.mem_ofList (nodup_snapshotItems db.projection thread.id _)).mp hitem
      obtain ⟨row, hrow, rfl⟩ := List.mem_map.mp hmem
      obtain ⟨hmem, hthread⟩ := mem_itemRows.mp (List.mem_of_mem_filter hrow)
      exact ⟨row, hmem, hthread, rfl⟩
    · intro r hr
      exact (Table.mem_ofList (nodup_requestsFor db.projection thread.id)).trans
        (mem_requestsFor.trans (and_iff_right hr))
    · exact List.Pairwise.insertionSort_eq (pairwise_listQueued db.projection thread.id)

end

theorem ThreadAgrees.matches (hs : ThreadAgrees s db.projection) :
    ∃ snapshot, db.snapshotThread s.threadId = some snapshot ∧ s.Matches db snapshot := by
  obtain ⟨mine, row, hmine, hrow, hsame⟩ := hs.thread
  unfold Db.snapshotThread
  simp only [hrow, Option.some.injEq, exists_eq_left']
  refine ⟨?_, fun run hrun => ?_, fun item hbody => ?_, fun r => ?_, hs.queue⟩
  · rw [hmine, Option.map_some, hsame]
  · obtain ⟨old, hold, hthread, hrunRow⟩ := hs.runs run hrun
    refine ⟨?_, fun run' hrun' hid => ?_⟩
    · refine List.mem_map.mpr ⟨old, ?_, hrunRow⟩
      simpa [hthread] using Table.mem_of_find? hold
    · obtain ⟨row', hrow', rfl⟩ := List.mem_map.mp hrun'
      have hfind' := Table.find?_key (mem_listRuns hrow').1
      rw [show row'.id = run.id from hid, hold] at hfind'
      rw [← hrunRow, Option.some.inj hfind']
  · rw [List.mem_map]
    constructor
    · rintro ⟨row', hrow', rfl⟩
      obtain ⟨hmem, hpos⟩ := List.mem_filter.mp hrow'
      obtain ⟨hmem, hthread⟩ := mem_itemRows.mp hmem
      have hpos' : db.projection.snapshotFrom s.threadId ≤ row'.position := of_decide_eq_true hpos
      exact ⟨hs.items.inWindow row' hmem hthread hbody hpos', hpos'⟩
    · rintro ⟨hmem, hpos⟩
      obtain ⟨row', hrow', hthread, rfl⟩ := hs.items.held item hmem hbody
      exact ⟨row', List.mem_filter.mpr ⟨mem_itemRows.mpr ⟨hrow', hthread⟩, decide_eq_true hpos⟩, rfl⟩
  · rw [mem_requestsFor]
    constructor
    · rintro ⟨hpending, hrest⟩
      exact ⟨(hs.requests r hpending).mpr hrest, hpending⟩
    · rintro ⟨hmem, hpending⟩
      exact ⟨hpending, (hs.requests r hpending).mp hmem⟩

/-! ### Histories -/

/-- What the thread's stream sends of the written events. -/
def threadFrames (written : List StoredEvent) : List ThreadEvent :=
  (written.filter fun e => e.threadId = some threadId).map StoredEvent.frame

/-- The open thread holds what the tables hold of it and has not run ahead of the store. -/
structure ThreadCurrent (threadId : String) (s : ThreadState) (db : Db) : Prop where
  threadId_eq : s.threadId = threadId
  agrees : ThreadAgrees s db.projection
  sequence_le : s.sequence ≤ db.seq
  checkpointRuns : db.projection.CheckpointRuns

theorem threadEvent_bounds {event : ThreadEvent} {n : Nat} (hs : s.sequence ≤ n) (hevent : event.sequence ≤ n) :
    (threadEvent s event).threadId = s.threadId ∧ (threadEvent s event).sequence ≤ n := by
  obtain ⟨hthread, -, hsame | hnew⟩ := threadEvent_fields s event
  · exact ⟨hthread, hsame.trans_le hs⟩
  · exact ⟨hthread, hnew.trans_le hevent⟩

theorem foldl_threadFrames (hfresh : s.sequence < event.sequence)
    (h : p.applyEvent event = .ok p') :
    (threadFrames s.threadId [event]).foldl applyThreadEvent s = threadDelivered s event := by
  by_cases hown : event.threadId = some s.threadId
  · have hframes : threadFrames s.threadId [event] = [event.frame] := by simp [threadFrames, hown]
    rw [hframes, List.foldl_cons, List.foldl_nil, threadDelivered, if_pos hown, applyThreadEvent]
    by_cases htype : event.payload.type = .runUpdated
    · cases hpay : event.payload with
      | runUpdated update =>
        simp only [check, threadEvent, StoredEvent.payload_frame, hpay, Payload.toJson, ServerPayload.toWire]
      | _ => simp [hpay, Payload.type] at htype
    · simp only [check_frame htype h, StoredEvent.sequence_frame, not_le.mpr hfresh, if_false,
        StoredEvent.threadId_frame, hown, ne_eq, not_true_eq_false, and_false]
  · have hframes : threadFrames s.threadId [event] = [] := by simp [threadFrames, hown]
    rw [hframes, List.foldl_nil, threadDelivered, if_neg hown]

theorem ThreadCurrent.writeDraft {threadId : String} {options : AppendOptions} {ts : Int} {db' : Db}
    {raw : EventDraft} (hs : ThreadCurrent threadId s db)
    (hm : ThreadMirrors threadId db.projection event)
    (hdel : event.payload.type = .threadDeleted → event.threadId ≠ some threadId)
    (h : Db.writeDraft options ts db raw = .ok (db', event)) :
    ThreadCurrent threadId ((threadFrames threadId [event]).foldl applyThreadEvent s) db' := by
  obtain ⟨-, happ, hseq, hseq'⟩ := Db.writeDraft_projection h
  obtain rfl := hs.threadId_eq
  have hle := hs.sequence_le
  rw [foldl_threadFrames (by omega) happ]
  have hbounds : (threadDelivered s event).threadId = s.threadId ∧
      (threadDelivered s event).sequence ≤ db'.seq := by
    unfold threadDelivered
    split_ifs
    · exact threadEvent_bounds (by omega) (by rw [StoredEvent.sequence_frame]; omega)
    · exact ⟨rfl, by omega⟩
  exact ⟨hbounds.1, hs.agrees.delivered hm hs.checkpointRuns hdel happ, hbounds.2,
    hs.checkpointRuns.applyEvent happ⟩

end

/-- After any history that does not delete the thread and whose events say on the wire what the store
does with them, the open thread folded from the first snapshot shows what a fresh one does. -/
theorem thread_agrees_with_snapshot {threadId : String} {db db' : Db} {batches : List Batch}
    {written : List (List StoredEvent)} {snapshot : ThreadSnapshot} (syncing : Bool)
    (hfk : db.projection.CheckpointRuns) (hsnapshot : db.snapshotThread threadId = some snapshot)
    (hdel : ∀ batch ∈ batches, ∀ raw ∈ batch.drafts, raw.payload.type = .threadDeleted →
      raw.threadId ≠ some threadId)
    (hmirror : db.Meets (fun db event => ThreadMirrors threadId db.projection event) batches)
    (h : db.appends batches = .ok (db', written)) :
    ∃ fresh, db'.snapshotThread threadId = some fresh ∧
      ((threadFrames threadId written.flatten).foldl applyThreadEvent
        (threadFromSnapshot snapshot syncing)).Matches db' fresh := by
  have hkeep : db.Meets (fun _ event => event.payload.type = .threadDeleted →
      event.threadId ≠ some threadId) batches :=
    Db.meets_of_drafts (C := fun type id => type = .threadDeleted → id ≠ some threadId) hdel
  have hcurrent : ThreadCurrent threadId ((threadFrames threadId written.flatten).foldl
      applyThreadEvent (threadFromSnapshot snapshot syncing)) db' := by
    refine Db.appends_invariant (P := fun db sofar => ThreadCurrent threadId
      ((threadFrames threadId sofar).foldl applyThreadEvent (threadFromSnapshot snapshot syncing)) db)
      (w := []) ?_ ?_ ?_ (hmirror.and hkeep) h
    · intro options ts m sofar raw m' event hm hC hstep
      have hnext := hm.writeDraft hC.1 hC.2 hstep
      rwa [← List.foldl_append, ← show threadFrames threadId (sofar ++ [event]) =
        threadFrames threadId sofar ++ threadFrames threadId [event] by simp [threadFrames]] at hnext
    · intro m m' sofar hsame hm
      exact ⟨hm.threadId_eq, by rw [hsame.projection]; exact hm.agrees,
        by rw [hsame.seq]; exact hm.sequence_le, by rw [hsame.projection]; exact hm.checkpointRuns⟩
    · obtain ⟨hid, hsequence, hagrees⟩ := threadFromSnapshot_agrees hsnapshot syncing
      exact ⟨hid, hagrees, hsequence.le, hfk⟩
  obtain ⟨fresh, hfresh, hmatches⟩ := hcurrent.agrees.matches
  exact ⟨fresh, hcurrent.threadId_eq ▸ hfresh, hmatches⟩

def testItem (id : String) : TurnItemDraft where
  id := id
  threadId := "t1"
  runId := some "r1"
  ordinal := none
  status := .completed
  title := none
  startedAt := none
  completedAt := none
  createdAt := 2000
  updatedAt := 2000
  body := .userMessage "u1" "hello" [] none

def testRun (id : String) : Run where
  id := id
  threadId := "t1"
  ordinal := 1
  status := .running
  startedAt := 2000

def runningDb : Db :=
  match Db.empty.append { drafts := [createProject (testProject "w1"), createThread (testThread "t1"),
      { threadId := some "t1", payload := .runStarted (testRun "r1") }], ts := 1000 } with
  | .ok (db, _) => db
  | .error _ => .empty

def messageHistory : List Batch :=
  [{ drafts := [{ threadId := some "t1", payload := .turnItemUpdated (testItem "u1:0") }], ts := 2000 },
    { drafts := [{ threadId := some "t1", payload := .runEnded "r1" .completed 3000 }], ts := 3000 }]

/-- A message and the end of its run are the same in both. -/
theorem thread_agrees_with_snapshot_run : ∃ snapshot r fresh, runningDb.snapshotThread "t1" = some snapshot ∧
      runningDb.appends messageHistory = .ok r ∧ r.1.snapshotThread "t1" = some fresh ∧
      ((threadFrames "t1" r.2.flatten).foldl applyThreadEvent
        (threadFromSnapshot snapshot false)).Matches r.1 fresh := by
  obtain ⟨fresh, hfresh⟩ := @thread_agrees_with_snapshot "t1" runningDb _ messageHistory _ _
    false (by decide) rfl (by decide) (by decide) rfl
  exact ⟨_, _, fresh, rfl, rfl, hfresh⟩

/-- The journal gives a run its first message; the open thread's run never gets it. -/
theorem thread_diverges_on_runUpdated :
    ¬ ∀ (threadId : String) (db db' : Db) (batches : List Batch) (written : List (List StoredEvent))
      (snapshot : ThreadSnapshot), db.projection.CheckpointRuns →
      db.snapshotThread threadId = some snapshot →
      (∀ batch ∈ batches, ∀ raw ∈ batch.drafts, raw.payload.type ≠ .threadDeleted) →
      db.appends batches = .ok (db', written) →
      ∃ fresh, db'.snapshotThread threadId = some fresh ∧
        ((threadFrames threadId written.flatten).foldl applyThreadEvent
          (threadFromSnapshot snapshot false)).Matches db' fresh := by
  intro h
  obtain ⟨fresh, -, hmatches⟩ := h "t1" runningDb _
    [{ drafts := [{ threadId := some "t1", payload := .turnItemUpdated (testItem "u1:0") },
        { threadId := some "t1"
          payload := .runUpdated { testRun "r1" with userItemId := some "u1:0" } }]
       ts := 2000 }] _ _ (by decide) rfl (by decide) rfl
  have hrun := (hmatches.runs (testRun "r1") (by decide)).1
  revert hrun
  decide

end Client

end Sightr
