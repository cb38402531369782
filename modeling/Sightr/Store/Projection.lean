import Sightr.Events
import Sightr.Lib.Fold
import Sightr.Lib.Table

/-!
# The projection tables

The seven tables `applyEvent` writes (`bridge/threads/store.ts`), with their keys, their unique pane
and their foreign keys, and `applyEvent` itself on them. A row is kept in the form the source's
`…FromRow` functions read it, a `NULL` column being `none`. A flag column that only ever holds 1 or
`NULL` is a `Bool`.
-/

namespace Sightr

open Keyed (Table)

/-! ### Rows -/

/-- An item row. Its `id` and `position` columns are always written from the body; the others stay
as they are when a checkpoint rewrites the body. -/
structure TurnItemRow where
  threadId : String
  runId : Option String
  type : TurnItemType
  body : TurnItem
  updatedSequence : Nat
  deriving DecidableEq

def TurnItemRow.id (row : TurnItemRow) : String := row.body.id

def TurnItemRow.position (row : TurnItemRow) : Int := row.body.ordinal

/-- A request row. Its `thread_id`, `kind`, `status` and `binding_hash` columns are always written
from the body. -/
structure RequestRow where
  body : RuntimeRequest
  boundText : Option String
  updatedSequence : Nat
  deriving DecidableEq

def RequestRow.id (row : RequestRow) : String := row.body.id

structure CheckpointDbRow where
  runId : String
  threadId : String
  ordinal : Int
  repoRoot : String
  status : CheckpointStatus
  reason : Option CheckpointAbsentReason
  startCommit : Option String
  startAt : Option Int
  endCommit : Option String
  endAt : Option Int
  files : Option (List CheckpointFile)
  additions : Option Int
  deletions : Option Int
  hidden : Option Int
  skipped : Option Int
  truncated : Bool
  approximate : Bool
  shared : Bool
  unsettled : Bool
  objectsExpiredAt : Option Int
  deriving DecidableEq

/-- What the update and the insert of a thread write: `compacting` is 1 or `NULL`. -/
def threadParams (thread : ServerThread) : ServerThread :=
  { thread with compacting := if thread.compacting = some true then some true else none }

/-- The columns of a run; `checkpoint` is not one of them. -/
def runColumns (run : Run) : Run := { run with checkpoint := none }

def bit (v : Option Bool) : Bool := v = some true

def count (v : Option Int) : Option Int := v.filter (· ≠ 0)

def flag (v : Bool) : Option Bool := if v then some true else none

def checkpointFromRow (r : CheckpointDbRow) : RunCheckpoint where
  runId := r.runId
  threadId := r.threadId
  appRunOrdinal := r.ordinal
  status := r.status
  reason := r.reason
  live :=
    -- Only a row that has objects says whether they are still there.
    if r.status ≠ .absent ∧ r.startCommit ≠ none then some r.objectsExpiredAt.isNone else none
  files := r.files.getD []
  additions := r.additions.getD 0
  deletions := r.deletions.getD 0
  capturedAt := r.endAt <|> r.startAt
  truncated := flag r.truncated
  hidden := count r.hidden
  skipped := count r.skipped
  approximate := flag r.approximate
  shared := flag r.shared
  unsettled := flag r.unsettled

/-- The item's title: what the snapshot found, in a few words. -/
def checkpointTitle (c : RunCheckpoint) : String :=
  if c.status ≠ .ready then "Snapshot unavailable"
  else if c.files.length = 0 then "Snapshot: no net changes"
  else
    let more := if c.truncated = some true then "+" else ""
    let plural := if c.files.length = 1 then "" else "s"
    s!"Snapshot: {c.files.length}{more} file{plural} changed"

def checkpointItemId (runId : String) : String := "checkpoint:" ++ runId

/-! ### Tables -/

structure Projection where
  projects : Table Project.id
  threads : Table (@ThreadOf.id AgentSessionRef)
  runs : Table Run.id
  turnItems : Table TurnItemRow.id
  runtimeRequests : Table RequestRow.id
  queuedMessages : Table QueuedMessage.id
  runCheckpoints : Table CheckpointDbRow.runId
  deriving DecidableEq

namespace Projection

def empty : Projection where
  projects := .empty
  threads := .empty
  runs := .empty
  turnItems := .empty
  runtimeRequests := .empty
  queuedMessages := .empty
  runCheckpoints := .empty

def noThread (id : String) : String := s!"no thread {id}"

def foreignKeyFailed : String := "FOREIGN KEY constraint failed"

def uniqueFailed (columns : String) : String := s!"UNIQUE constraint failed: {columns}"

def notNullFailed (column : String) : String := s!"NOT NULL constraint failed: {column}"

/-! ### Projects and threads -/

variable (p : Projection)

/-- Insert or replace a project; one without `checkpoints` keeps the stored switch. -/
def upsertProject (project : Project) : Projection :=
  let checkpoints := project.checkpoints <|> (p.projects.find? project.id).bind (·.checkpoints)
  { p with projects := p.projects.set { project with checkpoints } }

def closeProject (projectId : String) (closedAt : Int) : Except String Projection :=
  match p.projects.find? projectId with
  | none => .error s!"no project {projectId}"
  | some project => .ok { p with projects := p.projects.set { project with closedAt := some closedAt } }

/-- Another thread already has this pane and terminal. -/
def paneTaken (thread : ServerThread) : Bool :=
  p.threads.rows.any fun t =>
    t.id ≠ thread.id && t.paneId = thread.paneId && t.terminalId = thread.terminalId

def insertThread (thread : ServerThread) : Except String Projection :=
  match p.threads.insert? (threadParams thread) with
  | none => .error (uniqueFailed "threads.id")
  | some threads =>
    if p.paneTaken thread then .error (uniqueFailed "threads.pane_id, threads.terminal_id")
    else if p.projects.has thread.projectId then .ok { p with threads }
    else .error foreignKeyFailed

def loadThread (id : String) : Except String ServerThread :=
  match p.threads.find? id with
  | none => .error (noThread id)
  | some thread => .ok thread

def saveThread (thread : ServerThread) : Except String Projection :=
  if p.paneTaken thread then .error (uniqueFailed "threads.pane_id, threads.terminal_id")
  else .ok { p with threads := p.threads.set (threadParams thread) }

variable (threadId : String)

/-- The threads row and every row that refers to it, directly or through a run. -/
def deleteThread : Projection :=
  let runs := p.runs.filter (·.threadId ≠ threadId)
  { p with
    threads := p.threads.filter (·.id ≠ threadId)
    runs
    turnItems := p.turnItems.filter (·.threadId ≠ threadId)
    runtimeRequests := p.runtimeRequests.filter (·.body.threadId ≠ threadId)
    queuedMessages := p.queuedMessages.filter (·.threadId ≠ threadId)
    runCheckpoints := p.runCheckpoints.filter fun c =>
      c.threadId ≠ threadId && runs.has c.runId }

/-! ### Runs, items, requests and the queue -/

def insertRun (run : Run) : Except String Projection :=
  match p.runs.insert? (runColumns run) with
  | none => .error (uniqueFailed "runs.id")
  | some runs =>
    if p.threads.has run.threadId then .ok { p with runs } else .error foreignKeyFailed

def updateRun (runId : String) (f : Run → Run) : Except String Projection :=
  match p.runs.find? runId with
  | none => .error s!"no run {runId}"
  | some run => .ok { p with runs := p.runs.set (f run) }

def maxPosition : Option Int := ((p.turnItems.rows.filter (·.threadId = threadId)).map (·.position)).max?

def nextPosition : Int := (p.maxPosition threadId).getD (-1) + 1

def itemRow (item : TurnItem) (sequence : Nat) : TurnItemRow where
  threadId := item.threadId
  runId := item.runId
  type := item.body.type
  body := item
  updatedSequence := sequence

def upsertTurnItem (item : TurnItem) (sequence : Nat) : Except String Projection :=
  if p.threads.has item.threadId then
    .ok { p with turnItems := p.turnItems.set (itemRow item sequence) }
  else .error foreignKeyFailed

/-- The row a request is written as; an update without bound text keeps the stored one. -/
def requestRow (request : RuntimeRequest) (boundText : Option String) (sequence : Nat) : RequestRow where
  body := request
  boundText := boundText <|> (p.runtimeRequests.find? request.id).bind (·.boundText)
  updatedSequence := sequence

def upsertRequest (request : RuntimeRequest) (boundText : Option String) (sequence : Nat) : Except String Projection :=
  if p.threads.has request.threadId then
    .ok { p with
      runtimeRequests := p.runtimeRequests.set (p.requestRow request boundText sequence) }
  else .error foreignKeyFailed

def insertQueued (t : Table QueuedMessage.id) (m : QueuedMessage) : Except String (Table QueuedMessage.id) :=
  match t.insert? { m with threadId } with
  | none => .error (uniqueFailed "queued_messages.id")
  | some t' => .ok t'

def replaceQueue (messages : List QueuedMessage) : Except String Projection := do
  let cleared := p.queuedMessages.filter (·.threadId ≠ threadId)
  let queuedMessages ← messages.foldlM (insertQueued threadId) cleared
  if messages = [] ∨ p.threads.has threadId then return { p with queuedMessages }
  else .error foreignKeyFailed

/-! ### Checkpoints -/

def upsertCheckpointItem (row : CheckpointDbRow) (sequence : Nat) (ts : Int) : Projection :=
  let checkpoint := checkpointFromRow row
  let id := checkpointItemId row.runId
  let existing := p.turnItems.find? id
  let position := (existing.map (·.position)).getD (p.nextPosition row.threadId)
  let item : TurnItem :=
    { id, threadId := row.threadId, runId := some row.runId, ordinal := position
      status := .completed, title := some (checkpointTitle checkpoint)
      startedAt := row.startAt, completedAt := row.endAt
      createdAt := (existing.map (·.body.createdAt)).getD ts, updatedAt := ts
      body := .checkpoint row.runId checkpoint.files checkpoint }
  let itemRow : TurnItemRow :=
    match existing with
    -- On conflict only the body and the sequence are updated.
    | some old => { old with body := item, updatedSequence := sequence }
    | none =>
      { threadId := row.threadId, runId := some row.runId, type := item.body.type, body := item
        updatedSequence := sequence }
  { p with turnItems := p.turnItems.set itemRow }

def checkpointStartRow (c : RunCheckpoint) (extra : CapturedExtra) (ts : Int) : CheckpointDbRow where
  runId := c.runId
  threadId := c.threadId
  ordinal := c.appRunOrdinal
  repoRoot := extra.repoRoot.getD ""
  status := c.status
  reason := c.reason
  startCommit := extra.startCommit
  startAt := some (c.capturedAt.getD ts)
  endCommit := none
  endAt := none
  files := none
  additions := none
  deletions := none
  hidden := none
  skipped := count c.skipped
  truncated := false
  approximate := bit c.approximate
  shared := false
  unsettled := false
  objectsExpiredAt := none

/-- `a || b` on strings: the empty string counts as missing. -/
def orText (a b : Option String) : Option String := a.filter (· ≠ "") <|> b

def checkpointEndRow (existing : Option CheckpointDbRow) (c : RunCheckpoint)
    (extra : CapturedExtra) (ts : Int) : CheckpointDbRow where
  runId := c.runId
  threadId := c.threadId
  ordinal := c.appRunOrdinal
  repoRoot := (orText (existing.map (·.repoRoot)) extra.repoRoot).getD ""
  status := c.status
  reason := c.reason
  startCommit := existing.bind (·.startCommit) <|> extra.startCommit
  startAt := existing.bind (·.startAt)
  endCommit := extra.endCommit
  endAt := some (c.capturedAt.getD ts)
  files := some c.files
  additions := some c.additions
  deletions := some c.deletions
  hidden := count c.hidden
  skipped := count c.skipped
  truncated := bit c.truncated
  approximate := bit c.approximate || (existing.map (·.approximate)).getD false
  shared := bit c.shared
  unsettled := bit c.unsettled
  objectsExpiredAt := existing.bind (·.objectsExpiredAt)

def applyCheckpointCaptured (event : StoredEvent) (c : RunCheckpoint)
    (phase : CheckpointPhase) (extra : CapturedExtra) : Except String Projection :=
  let existing := p.runCheckpoints.find? c.runId
  -- A checkpoint for a run the store no longer has is a notice only.
  if !p.runs.has c.runId then .ok p
  else match phase with
    | .start =>
      -- A duplicate start, or a start replayed after its end, changes nothing.
      if existing.isSome then .ok p
      else if !p.threads.has c.threadId then .error foreignKeyFailed
      else .ok { p with
        runCheckpoints := p.runCheckpoints.set (checkpointStartRow c extra event.ts) }
    | .end =>
      -- The end phase finishes the row once.
      if (existing.bind (·.endAt)).isSome then .ok p
      else if !p.threads.has c.threadId then .error foreignKeyFailed
      else
        let row := checkpointEndRow existing c extra event.ts
        .ok (({ p with runCheckpoints := p.runCheckpoints.set row } : Projection).upsertCheckpointItem
          row event.sequence event.ts)

def applyCheckpointExpired (event : StoredEvent) (runId : String) : Projection :=
  match p.runCheckpoints.find? runId with
  | none => p
  | some old =>
    if old.objectsExpiredAt.isSome then p
    else
      let row := { old with objectsExpiredAt := some event.ts }
      let p' : Projection := { p with runCheckpoints := p.runCheckpoints.set row }
      -- The timeline row says `live: false` too, so a snapshot and the run agree.
      if row.endAt.isSome && p'.turnItems.has (checkpointItemId runId) then
        p'.upsertCheckpointItem row event.sequence event.ts
      else p'

end Projection

/-! ### Thread events -/

/-- A property of the patch on a column that cannot be `NULL`. -/
def JsField.overColumn {α : Type} (column : String) (f : JsField α) (old : α) : Except String α :=
  match f with
  | .absent => .ok old
  | .undef => .error (Projection.notNullFailed column)
  | .val a => .ok a

/-- `{...thread, ...patch, updatedAt: at}`, and the patch's session ref: `null` deletes it,
`undefined` keeps it. -/
def ServerThread.patched (thread : ServerThread) (patch : ServerThreadPatch) (at_ : Int) :
    Except String ServerThread := do
  let title ← patch.title.overColumn "threads.title" thread.title
  let titleSource ← patch.titleSource.overColumn "threads.title_source" thread.titleSource
  let harness ← patch.harness.overColumn "threads.harness" thread.harness
  let status ← patch.status.overColumn "threads.status" thread.status
  let lastActivityAt ←
    patch.lastActivityAt.overColumn "threads.last_activity_at" thread.lastActivityAt
  let capabilities ← patch.capabilities.overColumn "threads.capabilities_json" thread.capabilities
  let terminalId ← patch.terminalId.overColumn "threads.terminal_id" thread.terminalId
  return { thread with
    title, titleSource, harness, status, lastActivityAt, capabilities, terminalId
    -- An `undefined` flag is written as 0.
    unreadDone := (patch.unreadDone.spreadOver (some thread.unreadDone)).getD false
    permissionMode := patch.permissionMode.spreadOver thread.permissionMode
    model := patch.model.spreadOver thread.model
    contextUsage := patch.contextUsage.spreadOver thread.contextUsage
    compacting := patch.compacting.spreadOver thread.compacting
    paneAlive := patch.paneAlive.spreadOver thread.paneAlive
    sessionRef := patch.sessionRef.overRef thread.sessionRef
    updatedAt := at_ }

/-- A shelf move: the fields of every other shelf go. -/
def ThreadOf.reshelved {Ref : Type} (thread : ThreadOf Ref) (shelf : Shelf)
    (snoozedUntil : Option Int) (pinOrder : Option Rat) (at_ : Int) : ThreadOf Ref :=
  { thread with
    shelf
    updatedAt := at_
    snoozedUntil := if shelf = .snoozed then snoozedUntil else none
    pinnedAt := if shelf = .pinned then some at_ else none
    pinOrder := if shelf = .pinned then pinOrder else none
    settledAt := if shelf = .settled then some at_ else none
    archivedAt := none
    archiveReason := none }

def ThreadOf.archived {Ref : Type} (thread : ThreadOf Ref) (reason : ArchiveReason) (at_ : Int) : ThreadOf Ref :=
  { thread with
    shelf := .archived
    archivedAt := some at_
    archiveReason := some reason
    updatedAt := at_
    snoozedUntil := none
    pinnedAt := none
    pinOrder := none
    settledAt := none }

def ThreadEventType.text : ThreadEventType → String
  | projectUpserted => "project.upserted"
  | projectClosed => "project.closed"
  | threadCreated => "thread.created"
  | threadUpdated => "thread.updated"
  | threadShelfChanged => "thread.shelf-changed"
  | threadArchived => "thread.archived"
  | threadDeleted => "thread.deleted"
  | runStarted => "run.started"
  | runEnded => "run.ended"
  | runUpdated => "run.updated"
  | turnItemUpdated => "turn-item.updated"
  | runtimeRequestUpdated => "runtime-request.updated"
  | queueUpdated => "queue.updated"
  | commandRejected => "command.rejected"
  | dispatchFailed => "dispatch.failed"
  | threadCreateFailed => "thread.create.failed"
  | checkpointCaptured => "checkpoint.captured"
  | checkpointExpired => "checkpoint.expired"

def requireThreadId (event : StoredEvent) : Except String String :=
  match event.threadId.filter (· ≠ "") with
  | none => .error s!"{event.payload.type.text} needs a threadId"
  | some threadId => .ok threadId

def Projection.rewriteThread (p : Projection) (event : StoredEvent)
    (f : ServerThread → Except String ServerThread) : Except String Projection := do
  let thread ← p.loadThread (← requireThreadId event)
  p.saveThread (← f thread)

/-! ### The event -/

/-- The only code that writes a projection table from an event. An error rolls back the batch. -/
def Projection.applyEvent (p : Projection) (event : StoredEvent) : Except String Projection :=
  match event.payload with
  | .projectUpserted project => .ok (p.upsertProject project)
  | .projectClosed projectId closedAt => p.closeProject projectId closedAt
  | .threadCreated thread => p.insertThread thread
  | .threadUpdated patch at_ => p.rewriteThread event fun thread => thread.patched patch at_
  | .threadShelfChanged shelf snoozedUntil pinOrder at_ =>
    p.rewriteThread event fun thread => .ok (thread.reshelved shelf snoozedUntil pinOrder at_)
  | .threadArchived reason at_ =>
    p.rewriteThread event fun thread => .ok (thread.archived reason at_)
  | .threadDeleted _ => do
    let threadId ← requireThreadId event
    let _ ← p.loadThread threadId
    return p.deleteThread threadId
  | .runStarted run => p.insertRun run
  | .runEnded runId status completedAt =>
    p.updateRun runId fun run => { run with status, completedAt := some completedAt }
  | .runUpdated update =>
    p.updateRun update.id fun run =>
      { run with
        userItemId := update.userItemId, status := update.status
        completedAt := update.completedAt }
  | .turnItemUpdated item =>
    match item.ordinal with
    | none => .error (notNullFailed "turn_items.position")
    | some ordinal => p.upsertTurnItem (item.at ordinal) event.sequence
  | .runtimeRequestUpdated request boundText => p.upsertRequest request boundText event.sequence
  | .queueUpdated messages _ _ => do p.replaceQueue (← requireThreadId event) messages
  | .commandRejected .. | .dispatchFailed .. | .threadCreateFailed .. =>
    -- Notices for clients; no projection.
    .ok p
  | .checkpointCaptured checkpoint phase extra => p.applyCheckpointCaptured event checkpoint phase extra
  | .checkpointExpired runId => .ok (p.applyCheckpointExpired event runId)

/-! ### What an accepted operation did -/

theorem requireThreadId_eq_ok {event : StoredEvent} {threadId : String} :
    requireThreadId event = .ok threadId ↔ event.threadId = some threadId ∧ threadId ≠ "" := by
  unfold requireThreadId
  split
  · rename_i h
    constructor
    · rintro ⟨⟩
    · rintro ⟨hid, hne⟩
      simp [hid, hne] at h
  · rename_i id h
    obtain ⟨hid, hne⟩ := Option.filter_eq_some_iff.mp h
    simp only [hid, Except.ok.injEq, Option.some.injEq]
    constructor
    · rintro rfl
      exact ⟨rfl, by simpa using hne⟩
    · exact And.left

namespace Projection

variable {p p' : Projection} {id : String}

theorem closeProject_eq_ok {closedAt : Int} :
    p.closeProject id closedAt = .ok p' ↔ ∃ project, p.projects.find? id = some project ∧
      p' = { p with projects := p.projects.set { project with closedAt := some closedAt } } := by
  unfold closeProject
  cases p.projects.find? id <;> simp [@eq_comm _ p']

variable {thread : ServerThread}

theorem insertThread_eq_ok : p.insertThread thread = .ok p' ↔ ∃ threads,
      p.threads.insert? (threadParams thread) = some threads ∧ p.paneTaken thread = false ∧
        p.projects.has thread.projectId = true ∧ p' = { p with threads } := by
  unfold insertThread
  cases p.threads.insert? (threadParams thread) with
  | none => simp
  | some threads =>
    dsimp only
    by_cases htaken : p.paneTaken thread = true
    · simp [htaken]
    · by_cases hproject : p.projects.has thread.projectId = true
      · simp [htaken, hproject, @eq_comm _ p']
      · simp [htaken, hproject]

theorem loadThread_eq_ok : p.loadThread id = .ok thread ↔ p.threads.find? id = some thread := by
  unfold loadThread
  cases p.threads.find? id <;> simp

theorem saveThread_eq_ok : p.saveThread thread = .ok p' ↔ p.paneTaken thread = false ∧
      p' = { p with threads := p.threads.set (threadParams thread) } := by
  unfold saveThread
  split_ifs with htaken <;> simp [htaken, @eq_comm _ p']

variable {event : StoredEvent}

theorem rewriteThread_eq_ok {f : ServerThread → Except String ServerThread} :
    p.rewriteThread event f = .ok p' ↔ ∃ threadId thread next,
      event.threadId = some threadId ∧ threadId ≠ "" ∧ p.threads.find? threadId = some thread ∧
      f thread = .ok next ∧ p.paneTaken next = false ∧
      p' = { p with threads := p.threads.set (threadParams next) } := by
  unfold rewriteThread
  simp only [Except.bind_eq_ok, requireThreadId_eq_ok, loadThread_eq_ok, saveThread_eq_ok]
  constructor
  · rintro ⟨threadId, ⟨hid, hne⟩, thread, hfind, next, hnext, hpane, rfl⟩
    exact ⟨threadId, thread, next, hid, hne, hfind, hnext, hpane, rfl⟩
  · rintro ⟨threadId, thread, next, hid, hne, hfind, hnext, hpane, rfl⟩
    exact ⟨threadId, ⟨hid, hne⟩, thread, hfind, next, hnext, hpane, rfl⟩

variable {run : Run}

theorem insertRun_eq_ok : p.insertRun run = .ok p' ↔ ∃ runs, p.runs.insert? (runColumns run) = some runs ∧
      p.threads.has run.threadId = true ∧ p' = { p with runs } := by
  unfold insertRun
  cases p.runs.insert? (runColumns run) with
  | none => simp
  | some runs =>
    dsimp only
    split_ifs with hthread <;> simp [hthread, @eq_comm _ p']

theorem updateRun_eq_ok {runId : String} {f : Run → Run} : p.updateRun runId f = .ok p' ↔
      ∃ run, p.runs.find? runId = some run ∧ p' = { p with runs := p.runs.set (f run) } := by
  unfold updateRun
  cases p.runs.find? runId <;> simp [@eq_comm _ p']

variable {sequence : Nat}

theorem upsertTurnItem_eq_ok {item : TurnItem} :
    p.upsertTurnItem item sequence = .ok p' ↔ p.threads.has item.threadId = true ∧
      p' = { p with turnItems := p.turnItems.set (itemRow item sequence) } := by
  unfold upsertTurnItem
  split_ifs with hthread <;> simp [hthread, @eq_comm _ p']

theorem upsertRequest_eq_ok {request : RuntimeRequest} {boundText : Option String} :
    p.upsertRequest request boundText sequence = .ok p' ↔ p.threads.has request.threadId = true ∧ p' = { p with
        runtimeRequests := p.runtimeRequests.set (p.requestRow request boundText sequence) } := by
  unfold upsertRequest
  split_ifs with hthread <;> simp [hthread, @eq_comm _ p']

theorem replaceQueue_eq_ok {threadId : String} {messages : List QueuedMessage} :
    p.replaceQueue threadId messages = .ok p' ↔ ∃ queuedMessages, messages.foldlM (insertQueued threadId)
        (p.queuedMessages.filter (·.threadId ≠ threadId)) = .ok queuedMessages ∧
      (messages = [] ∨ p.threads.has threadId = true) ∧ p' = { p with queuedMessages } := by
  unfold replaceQueue
  rw [Except.bind_eq_ok]
  refine exists_congr fun t => and_congr_right fun _ => ?_
  split_ifs with h
  · constructor
    · rintro ⟨⟩
      exact ⟨h, rfl⟩
    · rintro ⟨-, rfl⟩
      rfl
  · simp [h]

theorem upsertCheckpointItem_eq (p : Projection) (row : CheckpointDbRow) (sequence : Nat)
    (ts : Int) : ∃ itemRow : TurnItemRow, itemRow.id = checkpointItemId row.runId ∧
      itemRow.body.body.type = .checkpoint ∧
      p.upsertCheckpointItem row sequence ts = { p with turnItems := p.turnItems.set itemRow } := by
  unfold upsertCheckpointItem
  dsimp only
  cases p.turnItems.find? (checkpointItemId row.runId) with
  | none => exact ⟨_, rfl, rfl, rfl⟩
  | some old => exact ⟨_, rfl, rfl, rfl⟩

variable {c : RunCheckpoint} {phase : CheckpointPhase} {extra : CapturedExtra}

section

variable (h : p.applyCheckpointCaptured event c phase extra = .ok p')
include h

theorem applyCheckpointCaptured_cases :
    (p' = p ∧ (p.runs.has c.runId = false ∨ phase = .start ∧ (p.runCheckpoints.find? c.runId).isSome = true ∨
        phase = .end ∧ ∃ row, p.runCheckpoints.find? c.runId = some row ∧ row.endAt.isSome = true)) ∨
    (phase = .start ∧ p.runs.has c.runId = true ∧ p.runCheckpoints.find? c.runId = none ∧ p' = { p with
        runCheckpoints := p.runCheckpoints.set (checkpointStartRow c extra event.ts) }) ∨
    (phase = .end ∧ p.runs.has c.runId = true ∧
      (∀ row, p.runCheckpoints.find? c.runId = some row → row.endAt.isSome = false) ∧
      ∃ row, row = checkpointEndRow (p.runCheckpoints.find? c.runId) c extra event.ts ∧
        p' = ({ p with runCheckpoints := p.runCheckpoints.set row } :
          Projection).upsertCheckpointItem row event.sequence event.ts) := by
  unfold applyCheckpointCaptured at h
  dsimp only at h
  cases hrun : p.runs.has c.runId with
  | false =>
    simp only [hrun, Bool.not_false, if_true, Except.ok.injEq] at h
    exact .inl ⟨h.symm, .inl rfl⟩
  | true =>
    simp only [hrun, Bool.not_true, Bool.false_eq_true, if_false] at h
    cases phase with
    | start =>
      cases hrow : p.runCheckpoints.find? c.runId with
      | some row =>
        simp only [hrow, Option.isSome_some, if_true, Except.ok.injEq] at h
        exact .inl ⟨h.symm, .inr (.inl ⟨rfl, rfl⟩)⟩
      | none =>
        simp only [hrow, Option.isSome_none, Bool.false_eq_true, if_false] at h
        split_ifs at h
        exact .inr (.inl ⟨rfl, rfl, rfl, (Except.ok.inj h).symm⟩)
    | «end» =>
      by_cases hend : ((p.runCheckpoints.find? c.runId).bind (·.endAt)).isSome = true
      · simp only [hend, if_true, Except.ok.injEq] at h
        obtain ⟨at_, hat⟩ := Option.isSome_iff_exists.mp hend
        obtain ⟨row, hrow, hat⟩ := Option.bind_eq_some_iff.mp hat
        exact .inl ⟨h.symm, .inr (.inr ⟨rfl, row, hrow, by simp [hat]⟩)⟩
      · simp only [hend, Bool.false_eq_true, if_false] at h
        split_ifs at h
        refine .inr (.inr ⟨rfl, rfl, fun row hrow => ?_, _, rfl, (Except.ok.inj h).symm⟩)
        simpa [hrow] using hend

theorem applyCheckpointCaptured_shape : ∃ turnItems runCheckpoints, p' = { p with turnItems, runCheckpoints } := by
  cases phase <;> simp only [applyCheckpointCaptured] at h <;> split_ifs at h <;>
    exact ⟨_, _, (Except.ok.inj h).symm⟩

end

theorem applyCheckpointExpired_shape (p : Projection) (event : StoredEvent) (runId : String) :
    ∃ turnItems runCheckpoints, p.applyCheckpointExpired event runId = { p with turnItems, runCheckpoints } := by
  unfold applyCheckpointExpired
  split
  · exact ⟨_, _, rfl⟩
  · split_ifs
    · exact ⟨_, _, rfl⟩
    · dsimp only
      split_ifs
      · exact ⟨_, _, rfl⟩
      · exact ⟨_, _, rfl⟩

/-- What an accepted event of each kind did to the tables. -/
inductive Applied (p : Projection) (event : StoredEvent) : Projection → Prop
  | projectUpserted {project} (hpay : event.payload = .projectUpserted project) :
    Applied p event (p.upsertProject project)
  | projectClosed {projectId closedAt project} (hpay : event.payload = .projectClosed projectId closedAt)
      (hfind : p.projects.find? projectId = some project) :
    Applied p event { p with projects := p.projects.set { project with closedAt := some closedAt } }
  | threadCreated {thread threads} (hpay : event.payload = .threadCreated thread)
      (hinsert : p.threads.insert? (threadParams thread) = some threads) (hpane : p.paneTaken thread = false) :
    Applied p event { p with threads }
  | threadUpdated {patch at_ threadId} {thread next : ServerThread} (hpay : event.payload = .threadUpdated patch at_)
      (hid : event.threadId = some threadId) (hne : threadId ≠ "") (hfind : p.threads.find? threadId = some thread)
      (hnext : thread.patched patch at_ = .ok next) (hpane : p.paneTaken next = false) :
    Applied p event { p with threads := p.threads.set (threadParams next) }
  | threadShelfChanged {shelf snoozedUntil pinOrder at_ threadId thread}
      (hpay : event.payload = .threadShelfChanged shelf snoozedUntil pinOrder at_)
      (hid : event.threadId = some threadId) (hne : threadId ≠ "") (hfind : p.threads.find? threadId = some thread)
      (hpane : p.paneTaken (thread.reshelved shelf snoozedUntil pinOrder at_) = false) :
    Applied p event
      { p with threads := p.threads.set (threadParams (thread.reshelved shelf snoozedUntil pinOrder at_)) }
  | threadArchived {reason at_ threadId thread} (hpay : event.payload = .threadArchived reason at_)
      (hid : event.threadId = some threadId) (hne : threadId ≠ "") (hfind : p.threads.find? threadId = some thread)
      (hpane : p.paneTaken (thread.archived reason at_) = false) :
    Applied p event { p with threads := p.threads.set (threadParams (thread.archived reason at_)) }
  | threadDeleted {at_ threadId} (hpay : event.payload = .threadDeleted at_) (hid : event.threadId = some threadId) :
    Applied p event (p.deleteThread threadId)
  | runStarted {run runs} (hpay : event.payload = .runStarted run)
      (hinsert : p.runs.insert? (runColumns run) = some runs) (hthread : p.threads.has run.threadId = true) :
    Applied p event { p with runs }
  | runEnded {run status completedAt} (hpay : event.payload = .runEnded run.id status completedAt)
      (hfind : p.runs.find? run.id = some run) :
    Applied p event { p with runs := p.runs.set { run with status, completedAt := some completedAt } }
  | runUpdated {run update} (hpay : event.payload = .runUpdated update) (hid : update.id = run.id)
      (hfind : p.runs.find? run.id = some run) :
    Applied p event { p with runs := p.runs.set { run with
      userItemId := update.userItemId, status := update.status, completedAt := update.completedAt } }
  | turnItemUpdated {item ordinal} (hpay : event.payload = .turnItemUpdated item)
      (hord : item.ordinal = some ordinal) (hthread : p.threads.has item.threadId = true) :
    Applied p event { p with turnItems := p.turnItems.set (itemRow (item.at ordinal) event.sequence) }
  | runtimeRequestUpdated {request boundText} (hpay : event.payload = .runtimeRequestUpdated request boundText)
      (hthread : p.threads.has request.threadId = true) :
    Applied p event { p with
      runtimeRequests := p.runtimeRequests.set (p.requestRow request boundText event.sequence) }
  | queueUpdated {messages change reason threadId queuedMessages}
      (hpay : event.payload = .queueUpdated messages change reason) (hid : event.threadId = some threadId)
      (hne : threadId ≠ "") (h : p.replaceQueue threadId messages = .ok { p with queuedMessages }) :
    Applied p event { p with queuedMessages }
  | notice (hpay : event.payload.type ∈ [.commandRejected, .dispatchFailed, .threadCreateFailed]) : Applied p event p
  | checkpointCaptured {c phase extra turnItems runCheckpoints}
      (hpay : event.payload = .checkpointCaptured c phase extra)
      (h : p.applyCheckpointCaptured event c phase extra = .ok { p with turnItems, runCheckpoints }) :
    Applied p event { p with turnItems, runCheckpoints }
  | checkpointExpired {runId turnItems runCheckpoints} (hpay : event.payload = .checkpointExpired runId)
      (h : p.applyCheckpointExpired event runId = { p with turnItems, runCheckpoints }) :
    Applied p event { p with turnItems, runCheckpoints }

theorem applied_of_applyEvent (h : p.applyEvent event = .ok p') : p.Applied event p' := by
  unfold applyEvent at h
  cases hpay : event.payload with
  | projectUpserted =>
    obtain rfl := Except.ok.inj (by simpa only [hpay] using h)
    exact .projectUpserted hpay
  | projectClosed =>
    obtain ⟨_, hfind, rfl⟩ := closeProject_eq_ok.mp (by simpa only [hpay] using h)
    exact .projectClosed hpay hfind
  | threadCreated =>
    obtain ⟨_, hinsert, hpane, -, rfl⟩ := insertThread_eq_ok.mp (by simpa only [hpay] using h)
    exact .threadCreated hpay hinsert hpane
  | threadUpdated =>
    obtain ⟨_, _, _, hid, hne, hfind, hnext, hpane, rfl⟩ := rewriteThread_eq_ok.mp (by simpa only [hpay] using h)
    exact .threadUpdated hpay hid hne hfind hnext hpane
  | threadShelfChanged =>
    obtain ⟨_, _, _, hid, hne, hfind, ⟨⟩, hpane, rfl⟩ := rewriteThread_eq_ok.mp (by simpa only [hpay] using h)
    exact .threadShelfChanged hpay hid hne hfind hpane
  | threadArchived =>
    obtain ⟨_, _, _, hid, hne, hfind, ⟨⟩, hpane, rfl⟩ := rewriteThread_eq_ok.mp (by simpa only [hpay] using h)
    exact .threadArchived hpay hid hne hfind hpane
  | threadDeleted =>
    simp only [hpay] at h
    obtain ⟨_, hid, h⟩ := Except.bind_eq_ok.mp h
    obtain ⟨_, -, ⟨⟩⟩ := Except.bind_eq_ok.mp h
    exact .threadDeleted hpay (requireThreadId_eq_ok.mp hid).1
  | runStarted =>
    obtain ⟨_, hinsert, hthread, rfl⟩ := insertRun_eq_ok.mp (by simpa only [hpay] using h)
    exact .runStarted hpay hinsert hthread
  | runEnded =>
    obtain ⟨_, hfind, rfl⟩ := updateRun_eq_ok.mp (by simpa only [hpay] using h)
    obtain rfl := Table.key_of_find? hfind
    exact .runEnded hpay hfind
  | runUpdated =>
    obtain ⟨_, hfind, rfl⟩ := updateRun_eq_ok.mp (by simpa only [hpay] using h)
    have hid := Table.key_of_find? hfind
    exact .runUpdated hpay hid.symm (hid ▸ hfind)
  | turnItemUpdated =>
    simp only [hpay] at h
    split at h
    · cases h
    · next hord =>
      obtain ⟨hthread, rfl⟩ := upsertTurnItem_eq_ok.mp h
      exact .turnItemUpdated hpay hord hthread
  | runtimeRequestUpdated =>
    obtain ⟨hthread, rfl⟩ := upsertRequest_eq_ok.mp (by simpa only [hpay] using h)
    exact .runtimeRequestUpdated hpay hthread
  | queueUpdated =>
    simp only [hpay] at h
    obtain ⟨_, hid, h⟩ := Except.bind_eq_ok.mp h
    obtain ⟨_, -, -, rfl⟩ := replaceQueue_eq_ok.mp h
    exact .queueUpdated hpay (requireThreadId_eq_ok.mp hid).1 (requireThreadId_eq_ok.mp hid).2 h
  | commandRejected | dispatchFailed | threadCreateFailed =>
    obtain rfl := Except.ok.inj (by simpa only [hpay] using h)
    exact .notice (by simp [hpay, Payload.type])
  | checkpointCaptured =>
    simp only [hpay] at h
    obtain ⟨_, _, rfl⟩ := applyCheckpointCaptured_shape h
    exact .checkpointCaptured hpay h
  | checkpointExpired runId =>
    obtain rfl := Except.ok.inj (by simpa only [hpay] using h)
    obtain ⟨_, _, hshape⟩ := p.applyCheckpointExpired_shape event runId
    rw [hshape]
    exact .checkpointExpired hpay hshape

theorem applyEvent_shape_of_not_shell (htype : event.payload.type ∉ SHELL_EVENT_TYPES)
    (h : p.applyEvent event = .ok p') :
    ∃ runs turnItems queuedMessages runCheckpoints,
      p' = { p with runs, turnItems, queuedMessages, runCheckpoints } := by
  cases applied_of_applyEvent h with
  | runStarted | runEnded | runUpdated | turnItemUpdated | queueUpdated | checkpointCaptured | checkpointExpired
  | notice => exact ⟨_, _, _, _, rfl⟩
  | projectUpserted hpay | projectClosed hpay | threadCreated hpay | threadUpdated hpay | threadShelfChanged hpay
  | threadArchived hpay | threadDeleted hpay | runtimeRequestUpdated hpay =>
    exact absurd (by simp [hpay, SHELL_EVENT_TYPES, Payload.type]) htype

/-! ### Checkpoint rows and their runs -/

/-- Every checkpoint row belongs to a run that is there, as its foreign key asks. -/
def CheckpointRuns (p : Projection) : Prop := ∀ row ∈ p.runCheckpoints.rows, p.runs.has row.runId = true

instance (p : Projection) : Decidable p.CheckpointRuns :=
  inferInstanceAs (Decidable (∀ row ∈ p.runCheckpoints.rows, p.runs.has row.runId = true))

theorem CheckpointRuns.empty : empty.CheckpointRuns := by
  intro row hrow
  cases hrow

theorem CheckpointRuns.of_runs (h : p.CheckpointRuns) (hrows : p'.runCheckpoints = p.runCheckpoints)
    (hruns : ∀ id, p.runs.has id = true → p'.runs.has id = true) : p'.CheckpointRuns := by
  intro row hrow
  rw [hrows] at hrow
  exact hruns row.runId (h row hrow)

private theorem CheckpointRuns.set {row : CheckpointDbRow} (h : p.CheckpointRuns)
    (hrows : p'.runCheckpoints = p.runCheckpoints.set row) (hruns : p'.runs = p.runs)
    (hrun : p.runs.has row.runId = true) : p'.CheckpointRuns := by
  intro row' hrow'
  rw [hrows] at hrow'
  rw [hruns]
  rcases Table.mem_set.mp hrow' with rfl | ⟨hmem, -⟩
  · exact hrun
  · exact h row' hmem

theorem has_set_runs {t : Table Run.id} (h : t.has id = true) : (t.set run).has id = true := by
  rw [Table.has, Table.find?_set]
  split_ifs
  · rfl
  · exact h

theorem CheckpointRuns.applyEvent (h : p.CheckpointRuns) (happ : p.applyEvent event = .ok p') :
    p'.CheckpointRuns := by
  cases applied_of_applyEvent happ with
  | threadDeleted =>
    intro row hrow
    simp only [deleteThread, Table.rows_filter, List.mem_filter, Bool.and_eq_true] at hrow
    exact hrow.2.2
  | runStarted _ hinsert =>
    refine h.of_runs rfl fun id hid => ?_
    rw [Table.has, Table.find?_insert? hinsert]
    split_ifs
    · rfl
    · exact hid
  | runEnded | runUpdated => exact h.of_runs rfl fun _ hid => has_set_runs hid
  | checkpointCaptured _ hcaptured =>
    rcases applyCheckpointCaptured_cases hcaptured with
      ⟨hp, -⟩ | ⟨-, hrun, -, hp⟩ | ⟨-, hrun, -, row, hrow, hp⟩
    · rwa [hp]
    · rw [hp]
      exact h.set rfl rfl hrun
    · obtain ⟨itemRow, -, -, hitem⟩ := upsertCheckpointItem_eq
        ({ p with runCheckpoints := p.runCheckpoints.set row } : Projection) row event.sequence
        event.ts
      rw [hp, hitem]
      refine h.set rfl rfl ?_
      rw [hrow]
      exact hrun
  | @checkpointExpired runId _ _ _ hexpired =>
    rw [← hexpired]
    unfold applyCheckpointExpired
    split
    · exact h
    · rename_i old hold
      have hrun := h old (Table.mem_of_find? hold)
      split_ifs
      · exact h
      · dsimp only
        split_ifs
        · obtain ⟨itemRow, -, -, hitem⟩ := upsertCheckpointItem_eq
            ({ p with runCheckpoints := p.runCheckpoints.set { old with objectsExpiredAt := some event.ts } } :
              Projection) { old with objectsExpiredAt := some event.ts } event.sequence event.ts
          rw [hitem]
          exact h.set rfl rfl hrun
        · exact h.set rfl rfl hrun
  | _ => exact h

end Projection

end Sightr
