import Sightr.Store.Snapshot

/-!
# The browser's reducers

`web2/src/stream/apply.ts`: what a snapshot frame and each later event make of the sidebar's state and
of an open thread's state. A record keyed by id is a table, a row being replaced in place or added
last, as a spread with a computed key does.
-/

namespace Sightr.Client

open Keyed (Table)

/-! ### State -/

structure ShellState where
  /-- The last applied sequence; 0 before the first snapshot. -/
  sequence : Nat
  /-- A snapshot has arrived (the lists are real, not just empty). -/
  loaded : Bool
  projects : Table Project.id
  threads : Table (@ThreadOf.id WireSessionRef)
  requests : Table RuntimeRequestSummary.id
  deriving DecidableEq

/-- A `dispatch.failed` notice as the composer reads it. -/
structure DispatchFailure where
  sequence : Nat
  commandId : Option String
  reason : String
  message : Option String
  textDelivered : Option Bool
  queuedId : Option String
  ts : Int
  deriving DecidableEq

/-- A restart-held queue that resumed without the operator asking. -/
structure QueueAutoResume where
  sequence : Nat
  /-- How many rows the bridge put back on the send path. -/
  count : Nat
  deriving DecidableEq

structure ThreadState where
  threadId : String
  sequence : Nat
  /-- True from attach until the stream's `synchronized` frame. -/
  syncing : Bool
  thread : Option Thread
  runs : Table Run.id
  items : Table (@TurnItemOf.id Int)
  requests : Table (fun r : RuntimeRequest => r.id)
  queue : List QueuedMessage
  historyCursor : Option Int
  dispatchFailure : Option DispatchFailure
  queueAutoResume : Option QueueAutoResume
  deriving DecidableEq

def summarize (request : RuntimeRequest) : RuntimeRequestSummary := request.toRuntimeRequestSummary

def shellFromSnapshot (snapshot : ShellSnapshot) : ShellState where
  sequence := snapshot.sequence
  loaded := true
  projects := .ofList snapshot.projects
  threads := .ofList snapshot.threads
  requests := .ofList snapshot.requests

def byPosition (messages : List QueuedMessage) : List QueuedMessage :=
  messages.insertionSort (·.position ≤ ·.position)

def threadFromSnapshot (snapshot : ThreadSnapshot) (syncing : Bool) : ThreadState where
  threadId := snapshot.thread.id
  sequence := snapshot.sequence
  syncing := syncing
  thread := some snapshot.thread
  runs := .ofList snapshot.runs
  items := .ofList snapshot.items
  requests := .ofList snapshot.requests
  queue := byPosition snapshot.queue
  historyCursor := snapshot.historyCursor
  dispatchFailure := none
  queueAutoResume := none

/-! ### Payload checks -/

inductive Checked
  | ok | unknown | malformed
  deriving DecidableEq

/-- The shape checks of `VALID`, on a frame whose payload has its declared type: what is left to check
is the thread id, and that the table knows the type at all. -/
def check (event : ThreadEvent) : Checked :=
  match event.payload with
  | .runUpdated .. => .unknown
  | .threadUpdated .. | .threadShelfChanged .. | .threadArchived .. | .threadDeleted ..
  | .queueUpdated .. => if event.threadId.isSome then .ok else .malformed
  | _ => .ok

/-! ### Thread projections (shared by both reducers) -/

/-- A property of the patch on one a thread always has; a frame's JSON has no `undefined`. -/
def patchValue {α : Type} (f : JsField α) (old : α) : α :=
  match f with
  | .val a => a
  | _ => old

/-- `{...thread, ...patch, updatedAt: at}`, and the patch's session ref. -/
def patched (thread : Thread) (patch : ThreadPatch) (at_ : Int) : Thread :=
  { thread with
    title := patchValue patch.title thread.title
    titleSource := patchValue patch.titleSource thread.titleSource
    harness := patchValue patch.harness thread.harness
    status := patchValue patch.status thread.status
    lastActivityAt := patchValue patch.lastActivityAt thread.lastActivityAt
    capabilities := patchValue patch.capabilities thread.capabilities
    terminalId := patchValue patch.terminalId thread.terminalId
    unreadDone := patchValue patch.unreadDone thread.unreadDone
    permissionMode := patch.permissionMode.spreadOver thread.permissionMode
    model := patch.model.spreadOver thread.model
    contextUsage := patch.contextUsage.spreadOver thread.contextUsage
    compacting := patch.compacting.spreadOver thread.compacting
    paneAlive := patch.paneAlive.spreadOver thread.paneAlive
    sessionRef := patch.sessionRef.overRef thread.sessionRef
    updatedAt := at_ }

def shelfChanged (thread : Thread) (shelf : Shelf) (snoozedUntil : Option Int)
    (pinOrder : Option Rat) (at_ : Int) : Thread :=
  { thread with
    shelf
    updatedAt := at_
    snoozedUntil := if shelf = .snoozed then snoozedUntil else none
    pinnedAt := if shelf = .pinned then some at_ else none
    pinOrder := if shelf = .pinned then pinOrder else none
    settledAt := if shelf = .settled then some at_ else none
    archivedAt := none
    archiveReason := none }

def archived (thread : Thread) (reason : ArchiveReason) (at_ : Int) : Thread :=
  { thread with
    shelf := .archived
    archivedAt := some at_
    archiveReason := some reason
    updatedAt := at_
    snoozedUntil := none
    pinnedAt := none
    pinOrder := none
    settledAt := none }

def patchThread (thread : Thread) (event : ThreadEvent) : Option Thread :=
  match event.payload with
  | .threadUpdated patch at_ => some (patched thread patch at_)
  | .threadShelfChanged shelf snoozedUntil pinOrder at_ =>
    some (shelfChanged thread shelf snoozedUntil pinOrder at_)
  | .threadArchived reason at_ => some (archived thread reason at_)
  | _ => none

/-! ### Shell -/

/-- The shell's part of an event that passed the checks and is not stale. -/
def shellEvent (state : ShellState) (event : ThreadEvent) : ShellState :=
  match event.payload with
  | .projectUpserted project =>
    { state with projects := state.projects.set project, sequence := event.sequence }
  | .projectClosed projectId closedAt =>
    match state.projects.find? projectId with
    | none => state
    | some project =>
      { state with
        projects := state.projects.set { project with closedAt := some closedAt }
        sequence := event.sequence }
  | .threadCreated thread =>
    { state with threads := state.threads.set thread, sequence := event.sequence }
  | .threadUpdated .. | .threadShelfChanged .. | .threadArchived .. =>
    -- An empty id is no id.
    match (event.threadId.filter (· ≠ "")).bind state.threads.find? with
    | none => state
    | some thread =>
      match patchThread thread event with
      | none => state
      | some next => { state with threads := state.threads.set next, sequence := event.sequence }
  | .threadDeleted _ =>
    { state with
      threads := state.threads.filter fun t => some t.id ≠ event.threadId
      requests := state.requests.filter fun r => some r.threadId ≠ event.threadId
      sequence := event.sequence }
  | .runtimeRequestUpdated request _ =>
    { state with requests := state.requests.set (summarize request), sequence := event.sequence }
  | _ =>
    -- Runs, items, queue and notices belong to the thread stream.
    state

/-- Unknown, malformed and stale events change nothing. -/
def applyShellEvent (state : ShellState) (event : ThreadEvent) : ShellState :=
  match check event with
  | .unknown | .malformed => state
  | .ok => if event.sequence ≤ state.sequence then state else shellEvent state event

/-! ### Thread -/

def nextOrdinal (items : Table (@TurnItemOf.id Int)) : Int :=
  items.rows.foldl (fun m item => max m item.ordinal) (-1) + 1

/-- The run with the checkpoint it already had, when the event carries none. -/
def keepCheckpoint (prior : Option RunCheckpoint) (run : Run) : Run :=
  if run.checkpoint.isSome then run else { run with checkpoint := prior }

/-- An open thread's part of an event that passed the checks, is not stale and belongs to it. -/
def threadEvent (state : ThreadState) (event : ThreadEvent) : ThreadState :=
  match event.payload with
  | .threadCreated thread =>
    if thread.id = state.threadId then
      { state with thread := some thread, sequence := event.sequence }
    else state
  | .threadUpdated .. | .threadShelfChanged .. | .threadArchived .. =>
    match state.thread.bind (patchThread · event) with
    | none => state
    | some next => { state with thread := some next, sequence := event.sequence }
  | .runStarted run =>
    if run.threadId = state.threadId then
      { state with
        runs := state.runs.set (keepCheckpoint ((state.runs.find? run.id).bind (·.checkpoint)) run)
        sequence := event.sequence }
    else state
  | .runEnded runId status completedAt =>
    match state.runs.find? runId with
    | none => state
    | some run =>
      { state with
        runs := state.runs.set { run with status, completedAt := some completedAt }
        sequence := event.sequence }
  | .checkpointCaptured checkpoint phase _ =>
    match state.runs.find? checkpoint.runId with
    | none => state
    | some run =>
      if checkpoint.threadId ≠ state.threadId then state
      -- A start arriving after its end must not take a finished checkpoint back to `pending`.
      else if phase = .start ∧ (run.checkpoint.map (·.status) = some .ready ∨
          run.checkpoint.map (·.status) = some .absent) then state
      else
        { state with
          runs := state.runs.set { run with checkpoint := some checkpoint }
          sequence := event.sequence }
  | .checkpointExpired runId =>
    match state.runs.find? runId with
    | none => state
    | some run =>
      match run.checkpoint with
      | none => state
      | some checkpoint =>
        { state with
          runs := state.runs.set { run with checkpoint := some { checkpoint with live := some false } }
          sequence := event.sequence }
  | .turnItemUpdated incoming =>
    if incoming.threadId = state.threadId then
      let ordinal := incoming.ordinal.getD
        (((state.items.find? incoming.id).map (·.ordinal)).getD (nextOrdinal state.items))
      { state with items := state.items.set (incoming.at ordinal), sequence := event.sequence }
    else state
  | .runtimeRequestUpdated request _ =>
    if request.threadId = state.threadId then
      { state with requests := state.requests.set request, sequence := event.sequence }
    else state
  | .queueUpdated messages change reason =>
    let queue := byPosition messages
    if change = some .resumed ∧ reason = some "auto" then
      -- The bridge lifted a restart hold by itself: count the rows it put back, for the notice.
      let held := (state.queue.filter (·.state = .held)).map (·.id)
      let count := (queue.filter fun m => m.state = .queued && held.contains m.id).length
      { state with
        queue, queueAutoResume := some ⟨event.sequence, count⟩, sequence := event.sequence }
    else { state with queue, sequence := event.sequence }
  | .dispatchFailed reason message textDelivered queuedId =>
    let textDelivered := textDelivered.filter (· = true)
    { state with
      dispatchFailure := some
        { sequence := event.sequence, commandId := event.commandId, reason, message
          textDelivered, queuedId, ts := event.ts }
      sequence := event.sequence }
  | _ =>
    -- Projects, notices, a deleted thread and the types the table does not know.
    state

/-- Unknown, malformed, stale and other threads' events change nothing. -/
def applyThreadEvent (state : ThreadState) (event : ThreadEvent) : ThreadState :=
  match check event with
  | .unknown | .malformed => state
  | .ok =>
    if event.sequence ≤ state.sequence then state
    else if event.threadId.isSome ∧ event.threadId ≠ some state.threadId then state
    else threadEvent state event

/-! ### What an event leaves alone -/

theorem threadEvent_fields (s : ThreadState) (event : ThreadEvent) :
    (threadEvent s event).threadId = s.threadId ∧ (threadEvent s event).syncing = s.syncing ∧
      ((threadEvent s event).sequence = s.sequence ∨ (threadEvent s event).sequence = event.sequence) := by
  unfold threadEvent
  dsimp only
  repeat' split
  all_goals first
    | exact ⟨rfl, rfl, .inl rfl⟩
    | exact ⟨rfl, rfl, .inr rfl⟩

@[simp] theorem threadId_applyThreadEvent (s : ThreadState) (event : ThreadEvent) :
    (applyThreadEvent s event).threadId = s.threadId := by
  unfold applyThreadEvent
  repeat' split
  all_goals first
    | rfl
    | exact (threadEvent_fields s event).1

theorem sequence_applyThreadEvent (s : ThreadState) (event : ThreadEvent) :
    s.sequence ≤ (applyThreadEvent s event).sequence ∧
      ((applyThreadEvent s event).sequence = s.sequence ∨ (applyThreadEvent s event).sequence = event.sequence) := by
  unfold applyThreadEvent
  split
  · exact ⟨le_refl _, .inl rfl⟩
  · exact ⟨le_refl _, .inl rfl⟩
  · split
    · exact ⟨le_refl _, .inl rfl⟩
    · rename_i hnew
      split
      · exact ⟨le_refl _, .inl rfl⟩
      · obtain ⟨-, -, hsame | hevent⟩ := threadEvent_fields s event
        · exact ⟨hsame.ge, .inl hsame⟩
        · exact ⟨by omega, .inr hevent⟩

end Sightr.Client
