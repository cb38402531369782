import Mathlib.Data.Rat.Defs

/-!
# The shared contracts

The domain, the event payloads and the queue rows that the bridge and the browser share
(`shared/v2/contracts.ts`), with the server-side forms of `bridge/threads/events.ts`. Times and
positions are integers, pin orders are rationals (a drop between two pins may be fractional), and
sequences are natural numbers. An optional property is an `Option`; where the source spreads an
object over another one, a property may also be present with the value `undefined`, and `JsField`
keeps that apart from an absent one.
-/

namespace Sightr

/-! ### Properties as an object spread sees them -/

/-- A property of an object: not there, there as `undefined`, or there with a value. -/
inductive JsField (α : Type)
  | absent
  | undef
  | val (a : α)
  deriving DecidableEq

namespace JsField

variable {α : Type}

/-- `JSON.parse(JSON.stringify(..))` on a property: an `undefined` one is dropped. -/
def toJson : JsField α → JsField α
  | undef => absent
  | f => f

def spreadOver : JsField α → Option α → Option α
  | absent, old => old
  | undef, _ => none
  | val a, _ => some a

/-- A patch's session ref on the old one: `null` deletes it, an absent or `undefined` one keeps it. -/
def overRef : JsField (Option α) → Option α → Option α
  | val ref, _ => ref
  | _, old => old

@[simp] theorem toJson_absent : (absent : JsField α).toJson = absent := rfl
@[simp] theorem toJson_undef : (undef : JsField α).toJson = absent := rfl
@[simp] theorem toJson_val (a : α) : (val a).toJson = val a := rfl
@[simp] theorem over_absent (old : Option α) : (absent : JsField α).spreadOver old = old := rfl
@[simp] theorem over_undef (old : Option α) : (undef : JsField α).spreadOver old = none := rfl
@[simp] theorem over_val (a : α) (old : Option α) : (val a).spreadOver old = some a := rfl

@[simp] theorem overRef_toJson (f : JsField (Option α)) (old : Option α) :
    f.toJson.overRef old = f.overRef old := by
  cases f <;> rfl

@[simp] theorem toJson_toJson (f : JsField α) : f.toJson.toJson = f.toJson := by
  cases f <;> rfl

end JsField

/-! ### Status, shelves and capabilities -/

inductive ThreadStatus
  | approval | input | failed | working | done | idle | starting
  deriving DecidableEq

inductive Shelf
  | active | pinned | snoozed | settled | archived
  deriving DecidableEq

inductive ArchiveReason
  | paneClosed | terminalReplaced | closedWhileDown | spawnFailed | user
  deriving DecidableEq

/-- `"herd" | "user"`: who named a project or a thread. -/
inductive NameSource
  | herd | user
  deriving DecidableEq

structure ThreadCapabilities where
  hasJournal : Bool
  canQueueDrain : Bool
  canInterrupt : Bool
  interruptKeys : Option (List String) := none
  canSwitchPermissionMode : Bool
  permissionModes : Option (List String) := none
  canSwitchModel : Bool
  modelCommand : Option String := none
  canSetEffortLive : Bool
  effortCommand : Option String := none
  resumeBySession : Bool
  launchModes : Bool
  deriving DecidableEq

/-- Everything false: a bare shell, or a harness with no descriptor. -/
def noCapabilities : ThreadCapabilities where
  hasJournal := false
  canQueueDrain := false
  canInterrupt := false
  canSwitchPermissionMode := false
  canSwitchModel := false
  canSetEffortLive := false
  resumeBySession := false
  launchModes := false

/-! ### Domain -/

structure Project where
  id : String
  label : String
  labelSource : NameSource
  number : Int
  repoKey : Option String := none
  worktreeOf : Option String := none
  branch : Option String := none
  order : Int
  status : ThreadStatus
  closedAt : Option Int := none
  /-- Run snapshots for this project; absent means never set. -/
  checkpoints : Option Bool := none
  deriving DecidableEq

/-- `"id" | "path"`: how a session ref names its log. -/
inductive SessionRefKind
  | id | path
  deriving DecidableEq

/-- A session ref as the bridge holds it; a path ref never reaches a client. -/
structure AgentSessionRef where
  kind : SessionRefKind
  value : String
  deriving DecidableEq

/-- A session ref on the wire; its kind is always `id`. -/
structure WireSessionRef where
  value : String
  deriving DecidableEq

structure UsageCost where
  amount : Rat
  currency : String
  deriving DecidableEq

structure ThreadTokenUsageSnapshot where
  usedTokens : Int
  totalProcessedTokens : Option Int := none
  maxTokens : Option Int := none
  inputTokens : Option Int := none
  cachedInputTokens : Option Int := none
  outputTokens : Option Int := none
  cost : Option UsageCost := none
  deriving DecidableEq

/-- A thread, with the session ref of its side of the wire. -/
structure ThreadOf (Ref : Type) where
  id : String
  paneId : String
  terminalId : String
  projectId : String
  title : String
  titleSource : NameSource
  harness : String
  status : ThreadStatus
  shelf : Shelf
  snoozedUntil : Option Int := none
  pinnedAt : Option Int := none
  pinOrder : Option Rat := none
  settledAt : Option Int := none
  unreadDone : Bool
  lastActivityAt : Int
  createdAt : Int
  updatedAt : Int
  archivedAt : Option Int := none
  archiveReason : Option ArchiveReason := none
  sessionRef : Option Ref := none
  capabilities : ThreadCapabilities
  permissionMode : Option String := none
  model : Option String := none
  contextUsage : Option ThreadTokenUsageSnapshot := none
  compacting : Option Bool := none
  paneAlive : Option Bool := none
  deriving DecidableEq

/-- The thread as the store keeps it: the full session ref, path refs included. -/
abbrev ServerThread := ThreadOf AgentSessionRef

abbrev Thread := ThreadOf WireSessionRef

inductive RunStatus
  | running | completed | interrupted | failed
  deriving DecidableEq

inductive CheckpointAbsentReason
  | disabled | noRepo | startMissed | endMissed | tooLarge | timeout | gitFailed | sparseCheckout
  deriving DecidableEq

inductive CheckpointFileKind
  | added | modified | deleted
  deriving DecidableEq

structure CheckpointFile where
  path : String
  kind : CheckpointFileKind
  additions : Int
  deletions : Int
  binary : Option Bool := none
  authored : Option Bool := none
  deriving DecidableEq

inductive CheckpointStatus
  | pending | ready | absent
  deriving DecidableEq

structure RunCheckpoint where
  runId : String
  threadId : String
  appRunOrdinal : Int
  status : CheckpointStatus
  reason : Option CheckpointAbsentReason := none
  live : Option Bool := none
  files : List CheckpointFile
  additions : Int
  deletions : Int
  capturedAt : Option Int := none
  truncated : Option Bool := none
  hidden : Option Int := none
  skipped : Option Int := none
  approximate : Option Bool := none
  shared : Option Bool := none
  unsettled : Option Bool := none
  deriving DecidableEq

structure Run where
  id : String
  threadId : String
  ordinal : Int
  userItemId : Option String := none
  status : RunStatus
  startedAt : Int
  completedAt : Option Int := none
  /-- Filled by snapshots and history pages, not stored on the run. -/
  checkpoint : Option RunCheckpoint := none
  deriving DecidableEq

/-! ### Turn items -/

inductive TurnItemStatus
  | idle | pending | running | waiting | completed | failed | cancelled | interrupted
  deriving DecidableEq

inductive UserMessageInputIntent
  | turnStart | queuedTurn | steer | promotedQueuedToSteer
  deriving DecidableEq

inductive AttachmentType
  | image | file
  deriving DecidableEq

structure ChatAttachment where
  type : Option AttachmentType := none
  id : Option String := none
  name : String
  path : String
  mimeType : Option String := none
  sizeBytes : Option Int := none
  deriving DecidableEq

inductive TurnItemType
  | userMessage | assistantMessage | reasoning | proposedPlan | todoList | commandExecution
  | fileChange | fileSearch | webSearch | dynamicTool | subagent | approvalRequest
  | userInputRequest | runInterruptResult | systemNotice | error | compaction | checkpoint
  | session | screen
  deriving DecidableEq

/-- The properties an item's kind adds. The store reads into the two kinds it builds or compares;
every other kind passes through it as the JSON text of those properties. -/
inductive TurnItemBody
  | userMessage (messageId text : String) (attachments : List ChatAttachment)
      (inputIntent : Option UserMessageInputIntent)
  | checkpoint (checkpointId : String) (files : List CheckpointFile) (checkpoint : RunCheckpoint)
  | other (type : TurnItemType) (json : String)
  deriving DecidableEq

/-- A timeline item, with `ordinal` optional before the store has placed it. -/
structure TurnItemOf (Ordinal : Type) where
  id : String
  threadId : String
  runId : Option String
  ordinal : Ordinal
  status : TurnItemStatus
  title : Option String
  startedAt : Option Int
  completedAt : Option Int
  createdAt : Int
  updatedAt : Int
  truncated : Option Bool := none
  body : TurnItemBody
  deriving DecidableEq

abbrev TurnItem := TurnItemOf Int

/-- An item before the store has given it a position. -/
abbrev TurnItemDraft := TurnItemOf (Option Int)

def TurnItemBody.type : TurnItemBody → TurnItemType
  | userMessage .. => .userMessage
  | checkpoint .. => .checkpoint
  | other t _ => t

def TurnItemOf.at {α β : Type} (item : TurnItemOf α) (ordinal : β) : TurnItemOf β := { item with ordinal }

/-! ### Runtime requests and the queue -/

inductive RuntimeRequestKind
  | permission | question | menu | trust | password
  deriving DecidableEq

inductive RuntimeRequestStatus
  | pending | resolved | expired
  deriving DecidableEq

structure RuntimeRequestOption where
  label : String
  keys : List String
  destructive : Option Bool := none
  description : Option String := none
  chosen : Option Bool := none
  deriving DecidableEq

structure RuntimeRequestStep where
  label : String
  answered : Bool
  current : Bool
  deriving DecidableEq

structure RuntimeRequestSubject where
  title : String
  target : Option String := none
  detail : Option String := none
  deriving DecidableEq

structure RequestMultiSelect where
  checked : List Bool
  advanceLabel : String
  deriving DecidableEq

structure RequestPreview where
  optionIndex : Int
  lines : List String
  deriving DecidableEq

structure RequestAnswer where
  question : String
  answer : String
  deriving DecidableEq

structure RequestDecision where
  thread : String
  run : String
  deriving DecidableEq

/-- What the shell carries of a request. The declared type has no `preview`; it is a property here
because a client's own summary of a published request may hold one. -/
structure RuntimeRequestSummary where
  id : String
  threadId : String
  kind : RuntimeRequestKind
  prompt : String
  status : RuntimeRequestStatus
  bindingHash : String
  createdAt : Int
  updatedAt : Int
  runId : Option String := none
  optionIndex : Option Int := none
  optionIndices : Option (List Int) := none
  viaWhistlr : Bool := false
  decision : Option RequestDecision := none
  navigable : Option Bool := none
  multiSelect : Option RequestMultiSelect := none
  answers : Option (List RequestAnswer) := none
  freeText : Option Bool := none
  customAnswer : Option String := none
  preview : Option RequestPreview := none
  deriving DecidableEq

/-- A dialog on the pane's screen: the summary's properties, and those only an open thread gets. -/
structure RuntimeRequest extends RuntimeRequestSummary where
  options : List RuntimeRequestOption
  steps : Option (List RuntimeRequestStep) := none
  subject : Option RuntimeRequestSubject := none
  deriving DecidableEq

inductive QueueMode
  | queue | steer
  deriving DecidableEq

inductive QueuedMessageState
  | queued | sending | held
  deriving DecidableEq

structure QueuedMessage where
  id : String
  threadId : String
  text : String
  attachments : List ChatAttachment
  position : Int
  mode : QueueMode
  state : QueuedMessageState
  heldReason : Option String := none
  createdAt : Int
  deriving DecidableEq

/-! ### Events -/

/-- The thread properties a `thread.updated` patch may carry. `sessionRef` is `none` inside `val`
for the `null` that clears it. -/
structure ThreadPatchOf (Ref : Type) where
  title : JsField String := .absent
  titleSource : JsField NameSource := .absent
  harness : JsField String := .absent
  status : JsField ThreadStatus := .absent
  unreadDone : JsField Bool := .absent
  lastActivityAt : JsField Int := .absent
  capabilities : JsField ThreadCapabilities := .absent
  terminalId : JsField String := .absent
  permissionMode : JsField String := .absent
  model : JsField String := .absent
  contextUsage : JsField ThreadTokenUsageSnapshot := .absent
  compacting : JsField Bool := .absent
  paneAlive : JsField Bool := .absent
  sessionRef : JsField (Option Ref) := .absent
  deriving DecidableEq

abbrev ServerThreadPatch := ThreadPatchOf AgentSessionRef

abbrev ThreadPatch := ThreadPatchOf WireSessionRef

inductive QueueChange
  | added | sent | held | resumed | reordered | edited | cancelled
  deriving DecidableEq

inductive CheckpointPhase
  | start | end
  deriving DecidableEq

/-- What `checkpoint.captured` adds on the server: where the snapshot lives. -/
structure CapturedExtra where
  repoRoot : Option String := none
  startCommit : Option String := none
  endCommit : Option String := none
  skippedPaths : Option (List String) := none
  hiddenStats : Option (List (String × String)) := none
  deriving DecidableEq

inductive CreateStage
  | pane | prompt | agent
  deriving DecidableEq

/-- One constructor for each event type. `Ref`, `Bound` and `Extra` are what the two sides of the
wire see differently: session refs, a request's bound text, a checkpoint's place. -/
inductive Payload (Ref Bound Extra : Type)
  | projectUpserted (project : Project)
  | projectClosed (projectId : String) (closedAt : Int)
  | threadCreated (thread : ThreadOf Ref)
  | threadUpdated (patch : ThreadPatchOf Ref) (at_ : Int)
  | threadShelfChanged (shelf : Shelf) (snoozedUntil : Option Int) (pinOrder : Option Rat) (at_ : Int)
  | threadArchived (reason : ArchiveReason) (at_ : Int)
  | threadDeleted (at_ : Int)
  | runStarted (run : Run)
  | runEnded (runId : String) (status : RunStatus) (completedAt : Int)
  | runUpdated (run : Run)
  | turnItemUpdated (item : TurnItemDraft)
  | runtimeRequestUpdated (request : RuntimeRequest) (boundText : Bound)
  | queueUpdated (messages : List QueuedMessage) (change : Option QueueChange) (reason : Option String)
  | commandRejected (reason : String) (code shown : Option String)
  | dispatchFailed (reason : String) (message : Option String) (textDelivered : Option Bool)
      (queuedId : Option String)
  | threadCreateFailed (threadId : String) (stage : CreateStage) (message : String)
  | checkpointCaptured (checkpoint : RunCheckpoint) (phase : CheckpointPhase) (extra : Extra)
  | checkpointExpired (runId : String)
  deriving DecidableEq

abbrev ServerPayload := Payload AgentSessionRef (Option String) CapturedExtra

abbrev WirePayload := Payload WireSessionRef Unit Unit

inductive ThreadEventType
  | projectUpserted | projectClosed | threadCreated | threadUpdated | threadShelfChanged
  | threadArchived | threadDeleted | runStarted | runEnded | runUpdated | turnItemUpdated
  | runtimeRequestUpdated | queueUpdated | commandRejected | dispatchFailed | threadCreateFailed
  | checkpointCaptured | checkpointExpired
  deriving DecidableEq

def Payload.type {Ref Bound Extra : Type} : Payload Ref Bound Extra → ThreadEventType
  | projectUpserted .. => .projectUpserted
  | projectClosed .. => .projectClosed
  | threadCreated .. => .threadCreated
  | threadUpdated .. => .threadUpdated
  | threadShelfChanged .. => .threadShelfChanged
  | threadArchived .. => .threadArchived
  | threadDeleted .. => .threadDeleted
  | runStarted .. => .runStarted
  | runEnded .. => .runEnded
  | runUpdated .. => .runUpdated
  | turnItemUpdated .. => .turnItemUpdated
  | runtimeRequestUpdated .. => .runtimeRequestUpdated
  | queueUpdated .. => .queueUpdated
  | commandRejected .. => .commandRejected
  | dispatchFailed .. => .dispatchFailed
  | threadCreateFailed .. => .threadCreateFailed
  | checkpointCaptured .. => .checkpointCaptured
  | checkpointExpired .. => .checkpointExpired

structure EventDraft where
  threadId : Option String := none
  payload : ServerPayload
  deriving DecidableEq

structure StoredEvent where
  sequence : Nat
  threadId : Option String := none
  commandId : Option String := none
  payload : ServerPayload
  ts : Int
  deriving DecidableEq

structure ThreadEvent where
  sequence : Nat
  threadId : Option String := none
  commandId : Option String := none
  payload : WirePayload
  ts : Int
  deriving DecidableEq

def SHELL_EVENT_TYPES : List ThreadEventType :=
  [.projectUpserted, .projectClosed, .threadCreated, .threadUpdated, .threadShelfChanged,
    .threadArchived, .threadDeleted, .runtimeRequestUpdated, .commandRejected, .dispatchFailed,
    .threadCreateFailed]

/-- A resume longer than this many events gets a snapshot instead of a replay. -/
def V2_REPLAY_LIMIT : Nat := 128

end Sightr
