import Sightr.Commands.Decide
import Sightr.Herd.Diff

/-!
# The other writers of threads

Beside the commands and the herd diff, threads are written by the auto-settle timer
(`bridge/threads/auto-settle.ts`), the closing of a pane (`closePaneEffect` of `bridge/threads/v2-routes.ts`)
and the spawn of an agent (`bridge/threads/spawn.ts`). Each is given as the batch of events it appends.
-/

namespace Sightr

/-! ### Auto-settle -/

def DAY_MS : Nat := 24 * 60 * 60 * 1000

/-- The settle events due at `now` for `days` of inactivity. -/
def autoSettleEvents (threads : List ServerThread) (now : Int) (days : JsNumber Rat)
    (waiting : List String) : List EventDraft :=
  match days with
  | none => []
  | some days =>
    if days ≤ 0 then []
    else
      (threads.filter fun t =>
        t.shelf = .active && (t.status = .idle || t.status = .done) &&
          decide ((t.lastActivityAt : Rat) < now - days * DAY_MS) && t.id ∉ waiting).map fun t =>
        { threadId := some t.id, payload := .threadShelfChanged .settled none none now }

/-! ### Closing a pane -/

/-- What is appended once a thread's pane was closed. -/
def closePaneEvents (json : RuntimeRequest → String) (openRuns : List Run)
    (pendingRequests : List RuntimeRequest) (thread : ServerThread) (at_ : Int) : List EventDraft :=
  let closed : EventDraft :=
    { threadId := some thread.id, payload := .threadUpdated { paneAlive := .val false } at_ }
  if thread.shelf = .archived then [closed]
  else
    (openRuns.filter (·.threadId = thread.id)).map (fun run =>
      { threadId := some thread.id, payload := .runEnded run.id .interrupted at_ : EventDraft }) ++
    ((pendingRequests.filter (·.threadId = thread.id)).flatMap fun request =>
      requestEvents json { request with status := .expired, updatedAt := at_ }) ++
    [{ threadId := some thread.id, payload := .threadArchived .paneClosed at_ }, closed]

/-! ### Spawn -/

structure CreatedShell where
  paneId : String
  terminalId : Option String := none
  workspaceId : String
  deriving DecidableEq

structure SpawnFields where
  title : String
  titleSource : NameSource
  harness : String
  status : ThreadStatus
  capabilities : ThreadCapabilities
  model : Option String := none
  permissionMode : Option String := none

/-- An optional field that is left out when it is absent. -/
def given {α : Type} : Option α → JsField α
  | none => .absent
  | some a => .val a

def SpawnFields.patch (fields : SpawnFields) (terminalId : Option String) : ServerThreadPatch where
  title := .val fields.title
  titleSource := .val fields.titleSource
  harness := .val fields.harness
  status := .val fields.status
  capabilities := .val fields.capabilities
  model := given fields.model
  permissionMode := given fields.permissionMode
  terminalId := given terminalId

def spawnedThread (fields : SpawnFields) (created : CreatedShell) (id : String) (at_ : Int) : ServerThread where
  id
  paneId := created.paneId
  terminalId := created.terminalId.getD ""
  projectId := created.workspaceId
  title := fields.title
  titleSource := fields.titleSource
  harness := fields.harness
  status := fields.status
  shelf := .active
  unreadDone := false
  lastActivityAt := at_
  createdAt := at_
  updatedAt := at_
  capabilities := fields.capabilities
  model := fields.model
  permissionMode := fields.permissionMode

/-- The herd ingest may have listed the pane already. -/
def seenThread (threads : List ServerThread) (created : CreatedShell) : Option ServerThread :=
  let terminalId := created.terminalId.getD ""
  threads.find? fun t => t.paneId = created.paneId && t.shelf ≠ .archived &&
    (t.terminalId = "" || terminalId = "" || t.terminalId = terminalId)

/-- The thread a spawn is for, and its first batch: it takes a listed thread over, or makes one. -/
def spawnEvents (threads : List ServerThread) (newProject : Option Project) (fields : SpawnFields)
    (created : CreatedShell) (newId : String) (at_ : Int) : String × List EventDraft :=
  let project : List EventDraft := newProject.toList.map fun p => { payload := .projectUpserted p }
  match seenThread threads created with
  | some seen =>
    let terminalId := if seen.terminalId = "" then created.terminalId.filter (· ≠ "") else none
    (seen.id, project ++ [{ threadId := some seen.id, payload := .threadUpdated (fields.patch terminalId) at_ }])
  | none =>
    (newId, project ++ [{ threadId := some newId,
                          payload := .threadCreated (spawnedThread fields created newId at_) }])

/-- The notice of a failed spawn; its message is the item's own JSON. -/
def spawnNotice (threadId : String) (message : String) (at_ : Int) : EventDraft where
  threadId := some threadId
  payload := .turnItemUpdated {
    id := "spawn:" ++ threadId, threadId, runId := none, ordinal := none, status := .failed
    title := none, startedAt := none, completedAt := some at_, createdAt := at_, updatedAt := at_
    body := .other .systemNotice message }

/-- `fail`: archive the thread when its pane is gone, else hand it back to the herd ingest. -/
def failEvents (thread : Option ServerThread) (threadId : String) (stage : CreateStage) (message : String)
    (closed : Bool) (at_ : Int) : List EventDraft :=
  { threadId := some threadId, payload := .threadCreateFailed threadId stage message } ::
    match thread with
    | none => []
    | some thread =>
      spawnNotice threadId message at_ ::
        if thread.shelf = .archived then []
        else if closed then [{ threadId := some threadId, payload := .threadArchived .spawnFailed at_ }]
        else if thread.status = .starting then
          [{ threadId := some threadId, payload := .threadUpdated { status := .val .idle } at_ }]
        else []

/-- `giveUp`: the agent never became ready, and its pane stays. -/
def giveUpEvents (thread : Option ServerThread) (threadId message : String) (at_ : Int) : List EventDraft :=
  match thread with
  | none => []
  | some thread =>
    [{ threadId := some threadId, payload := .threadCreateFailed threadId .agent message },
      spawnNotice threadId message at_] ++
    if thread.shelf ≠ .archived ∧ thread.status = .starting then
      [{ threadId := some threadId, payload := .threadUpdated { status := .val .failed } at_ }]
    else []

/-- The end of `finish`: a thread that is still `starting` is idle. -/
def readyEvents (thread : Option ServerThread) (threadId : String) (at_ : Int) : List EventDraft :=
  match thread with
  | none => []
  | some thread =>
    if thread.shelf ≠ .archived ∧ thread.status = .starting then
      [{ threadId := some threadId, payload := .threadUpdated { status := .val .idle } at_ }]
    else []

end Sightr
