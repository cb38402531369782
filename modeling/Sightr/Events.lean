import Sightr.Contracts

/-!
# The wire forms of stored events

What `bridge/threads/events.ts` strips before an event, a thread or a patch reaches a client, and
what the JSON text of a stored payload keeps of it.
-/

namespace Sightr

/-! ### The client form -/

/-- An id ref passes; a path ref (or none) does not reach a client. -/
def wireSessionRef : Option AgentSessionRef → Option WireSessionRef
  | some ⟨.id, value⟩ => some ⟨value⟩
  | _ => none

def toWireThread (thread : ServerThread) : Thread where
  id := thread.id
  paneId := thread.paneId
  terminalId := thread.terminalId
  projectId := thread.projectId
  title := thread.title
  titleSource := thread.titleSource
  harness := thread.harness
  status := thread.status
  shelf := thread.shelf
  snoozedUntil := thread.snoozedUntil
  pinnedAt := thread.pinnedAt
  pinOrder := thread.pinOrder
  settledAt := thread.settledAt
  unreadDone := thread.unreadDone
  lastActivityAt := thread.lastActivityAt
  createdAt := thread.createdAt
  updatedAt := thread.updatedAt
  archivedAt := thread.archivedAt
  archiveReason := thread.archiveReason
  sessionRef := wireSessionRef thread.sessionRef
  capabilities := thread.capabilities
  permissionMode := thread.permissionMode
  model := thread.model
  contextUsage := thread.contextUsage
  compacting := thread.compacting
  paneAlive := thread.paneAlive

/-- A path ref on the server reads as "no id ref" on the wire, so it clears the client's copy. -/
def toWirePatch (patch : ServerThreadPatch) : ThreadPatch where
  title := patch.title
  titleSource := patch.titleSource
  harness := patch.harness
  status := patch.status
  unreadDone := patch.unreadDone
  lastActivityAt := patch.lastActivityAt
  capabilities := patch.capabilities
  terminalId := patch.terminalId
  permissionMode := patch.permissionMode
  model := patch.model
  contextUsage := patch.contextUsage
  compacting := patch.compacting
  paneAlive := patch.paneAlive
  sessionRef :=
    match patch.sessionRef with
    | .val ref => .val (wireSessionRef ref)
    | _ => .absent

/-- The client form of a payload: path refs, bound text and a checkpoint's place removed. -/
def ServerPayload.toWire : ServerPayload → WirePayload
  | .projectUpserted project => .projectUpserted project
  | .projectClosed projectId closedAt => .projectClosed projectId closedAt
  | .threadCreated thread => .threadCreated (toWireThread thread)
  | .threadUpdated patch at_ => .threadUpdated (toWirePatch patch) at_
  | .threadShelfChanged shelf snoozedUntil pinOrder at_ =>
    .threadShelfChanged shelf snoozedUntil pinOrder at_
  | .threadArchived reason at_ => .threadArchived reason at_
  | .threadDeleted at_ => .threadDeleted at_
  | .runStarted run => .runStarted run
  | .runEnded runId status completedAt => .runEnded runId status completedAt
  | .runUpdated run => .runUpdated run
  | .turnItemUpdated item => .turnItemUpdated item
  | .runtimeRequestUpdated request _ => .runtimeRequestUpdated request ()
  | .queueUpdated messages change reason => .queueUpdated messages change reason
  | .commandRejected reason code shown => .commandRejected reason code shown
  | .dispatchFailed reason message textDelivered queuedId =>
    .dispatchFailed reason message textDelivered queuedId
  | .threadCreateFailed threadId stage message => .threadCreateFailed threadId stage message
  | .checkpointCaptured checkpoint phase _ => .checkpointCaptured checkpoint phase ()
  | .checkpointExpired runId => .checkpointExpired runId

def StoredEvent.toWireEvent (event : StoredEvent) : ThreadEvent where
  sequence := event.sequence
  threadId := event.threadId
  commandId := event.commandId
  payload := ServerPayload.toWire event.payload
  ts := event.ts

@[simp] theorem ServerPayload.type_toWire (payload : ServerPayload) :
    (ServerPayload.toWire payload).type = payload.type := by
  cases payload <;> rfl

@[simp] theorem StoredEvent.type_toWireEvent (event : StoredEvent) :
    event.toWireEvent.payload.type = event.payload.type :=
  ServerPayload.type_toWire event.payload

/-! ### The JSON text of a stored payload -/

/-- A patch read back from its JSON text: the properties that were `undefined` are gone. -/
def ThreadPatchOf.toJson {Ref : Type} (patch : ThreadPatchOf Ref) : ThreadPatchOf Ref where
  title := patch.title.toJson
  titleSource := patch.titleSource.toJson
  harness := patch.harness.toJson
  status := patch.status.toJson
  unreadDone := patch.unreadDone.toJson
  lastActivityAt := patch.lastActivityAt.toJson
  capabilities := patch.capabilities.toJson
  terminalId := patch.terminalId.toJson
  permissionMode := patch.permissionMode.toJson
  model := patch.model.toJson
  contextUsage := patch.contextUsage.toJson
  compacting := patch.compacting.toJson
  paneAlive := patch.paneAlive.toJson
  sessionRef := patch.sessionRef.toJson

/-- A payload read back from its JSON text. Only a `thread.updated` patch is spread over another
object, so only there does a property that is `undefined` differ from an absent one. -/
def Payload.toJson {Ref Bound Extra : Type} : Payload Ref Bound Extra → Payload Ref Bound Extra
  | .threadUpdated patch at_ => .threadUpdated patch.toJson at_
  | payload => payload

/-- A stored event as a query of the `events` table returns it. -/
def StoredEvent.toJson (event : StoredEvent) : StoredEvent := { event with payload := event.payload.toJson }

@[simp] theorem ThreadPatchOf.toJson_toJson {Ref : Type} (patch : ThreadPatchOf Ref) :
    patch.toJson.toJson = patch.toJson := by
  simp [ThreadPatchOf.toJson]

@[simp] theorem Payload.toJson_toJson {Ref Bound Extra : Type} (payload : Payload Ref Bound Extra) :
    payload.toJson.toJson = payload.toJson := by
  cases payload with
  | threadUpdated => simp only [toJson, ThreadPatchOf.toJson_toJson]
  | _ => rfl

@[simp] theorem Payload.type_toJson {Ref Bound Extra : Type} (payload : Payload Ref Bound Extra) :
    payload.toJson.type = payload.type := by
  cases payload <;> rfl

theorem StoredEvent.toJson_toJson (event : StoredEvent) : event.toJson.toJson = event.toJson := by
  simp only [StoredEvent.toJson, Payload.toJson_toJson]

theorem toWirePatch_toJson (patch : ServerThreadPatch) : toWirePatch patch.toJson = (toWirePatch patch).toJson := by
  unfold toWirePatch ThreadPatchOf.toJson
  rcases patch.sessionRef with _ | _ | (_ | ref) <;> rfl

theorem ServerPayload.toWire_toJson (payload : ServerPayload) :
    ServerPayload.toWire payload.toJson = (ServerPayload.toWire payload).toJson := by
  cases payload with
  | threadUpdated patch => simp only [Payload.toJson, toWire, toWirePatch_toJson]
  | _ => rfl

/-! ### The records and drafts the store's tests build -/

variable (id : String)

def testProject : Project where
  id := id
  label := "ws " ++ id
  labelSource := .herd
  number := 1
  order := 1
  status := .idle

def testThread : ServerThread where
  id := id
  paneId := "w1:p-" ++ id
  terminalId := "term-" ++ id
  projectId := "w1"
  title := "thread " ++ id
  titleSource := .herd
  harness := "claude"
  status := .idle
  shelf := .active
  unreadDone := false
  lastActivityAt := 1000
  createdAt := 1000
  updatedAt := 1000
  capabilities := { noCapabilities with hasJournal := true }

def createProject (project : Project) : EventDraft where
  payload := .projectUpserted project

def createThread (thread : ServerThread) : EventDraft where
  threadId := some thread.id
  payload := .threadCreated thread

def startRun (ordinal : Int) : EventDraft where
  threadId := some "t1"
  payload := .runStarted { id, threadId := "t1", ordinal, status := .running, startedAt := 1000 }

def writeText (runId : Option String) (ordinal : Option Int := none) : EventDraft where
  threadId := some "t1"
  payload := .turnItemUpdated {
    id, threadId := "t1", runId, ordinal, status := .completed, title := none
    startedAt := none, completedAt := none, createdAt := 1000, updatedAt := 1000
    body := .other .assistantMessage "\x7b\"text\":\"hello\"\x7d" }

end Sightr
