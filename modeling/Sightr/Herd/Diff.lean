import Sightr.Lib.JsText
import Sightr.Requests.Items
import Sightr.Store.Snapshot

/-!
# The herd diff

`diffHerd` of `bridge/threads/herd-ingest.ts`: workspaces become projects, panes become threads. The
engine's snapshot is compared with the store's projection, and the result is one list of events. A pane's
harness family and its capabilities are parameters, as are the clock, the ids, the ledger and the
branches.
-/

namespace Sightr

open Keyed (Table)

/-! ### The engine's snapshot -/

inductive AgentStatus
  | idle | working | blocked | done | unknown
  deriving DecidableEq

structure AgentView where
  paneId : String
  terminalId : Option String := none
  workspaceId : String
  workspaceLabel : String
  workspaceNumber : Int
  agent : String
  status : AgentStatus
  shell : Bool := false
  cwd : String := ""
  paneLabel : Option String := none
  sessionName : Option String := none
  agentName : Option String := none
  terminalTitle : Option String := none
  summary : Option String := none
  tabLabel : Option String := none
  agentSession : Option AgentSessionRef := none
  deriving DecidableEq

structure WorkspaceWorktree where
  repoKey : String
  isLinkedWorktree : Bool
  deriving DecidableEq

structure WorkspaceView where
  workspaceId : String
  number : Int
  label : String
  worktree : Option WorkspaceWorktree := none
  deriving DecidableEq

structure EngineSnapshot where
  agents : List AgentView
  shellPanes : List AgentView
  workspaces : List WorkspaceView
  deriving DecidableEq

def EngineSnapshot.panes (snap : EngineSnapshot) : List AgentView := snap.agents ++ snap.shellPanes

structure PaneActivity where
  activeAt : Int
  seenAt : Int

/-! ### Statuses and titles -/

/-- How long a `starting` thread may be missing from the herd before it counts as gone. -/
def STARTING_GRACE_MS : Int := 60000

def MAX_TITLE_LENGTH : Nat := 200

def SHELL_HARNESS : String := "shell"

def isUnreadDone (status : AgentStatus) (activity : Option PaneActivity) : Bool :=
  status = .done && activity.any fun a => decide (a.seenAt < a.activeAt)

/-- A thread's status from the published herdr status; a resting pane keeps a `failed`. -/
def threadStatusFor (herd : AgentStatus) (unreadDone : Bool) (openKinds : List RuntimeRequestKind := [])
    (previous : Option ThreadStatus := none) : ThreadStatus :=
  match herd with
  | .working => .working
  | .blocked => if openKinds.any fun k => k = .permission || k = .trust then .approval else .input
  | _ =>
    if previous = some .failed then .failed
    else if unreadDone then .done else .idle

/-- `THREAD_STATUS_RANK`: the statuses are listed worst first. -/
def THREAD_STATUS_RANK : ThreadStatus → Nat
  | .approval => 0
  | .input => 1
  | .failed => 2
  | .working => 3
  | .done => 4
  | .idle => 5
  | .starting => 6

/-- The worst status; an empty list rolls up to `idle`. -/
def worstStatus : List ThreadStatus → ThreadStatus
  | [] => .idle
  | first :: list =>
    list.foldl (fun worst s => if THREAD_STATUS_RANK s < THREAD_STATUS_RANK worst then s else worst) first

private def isSlash (c : Char) : Bool := c = '/' || c = '\\'

/-- A path's last segment, trailing separators aside. -/
def basename (path : String) : String :=
  String.ofList ((path.toList.reverse.dropWhile isSlash).takeWhile (! isSlash ·)).reverse

/-- The first `units` UTF-16 code units; half of a pair does not fit in a `String`. -/
def sliceUnits : Nat → List Char → List Char
  | _, [] => []
  | units, c :: s =>
    let width := if c.toNat < 0x10000 then 1 else 2
    if width ≤ units then c :: sliceUnits (units - width) s else []

/-- The herd's title for a pane: the first name it has, else `<harness> · <tab or folder>`. -/
def herdTitle (pane : AgentView) (harness : String) : String :=
  let trim (v : Option String) := String.ofList (JsText.trim (v.getD "").toList)
  let named := ([pane.paneLabel, pane.sessionName, pane.agentName, pane.terminalTitle,
    pane.summary].map trim).find? (· ≠ "")
  let tab := trim pane.tabLabel
  let place := if tab = "" then basename pane.cwd else tab
  let title := named.getD (if place = "" then harness else harness ++ " · " ++ place)
  String.ofList (sliceUnits MAX_TITLE_LENGTH title.toList)

/-! ### The diff's input and its working state -/

structure HerdProjection where
  projects : List Project
  threads : List ServerThread
  openRuns : List Run
  pendingRequests : List RuntimeRequest

structure HerdDiffContext where
  now : Int
  newId : Nat → String
  /-- The first reconcile since start: a thread whose pane is gone was closed while the bridge was down. -/
  first : Bool
  /-- Threads and projects already missing at the previous reconcile. -/
  missingThreads : List String
  missingProjects : List String
  branchOf : String → Option String
  activity : String → Option PaneActivity
  /-- When the engine last reported a status transition for the pane. -/
  touchedAt : String → Option Int
  capabilities : String → ThreadCapabilities
  canonicalAgent : String → String
  requestJson : RuntimeRequest → String

structure HerdDiff where
  events : List EventDraft
  missingThreads : List String
  missingProjects : List String

/-- `shell` for a bare shell, else the canonical agent id (raw when unknown). -/
def harnessFor (ctx : HerdDiffContext) (pane : AgentView) : String :=
  if pane.shell then SHELL_HARNESS
  else
    let canonical := ctx.canonicalAgent pane.agent
    if canonical = "" then pane.agent else canonical

/-- `applyPatch`: the diff's own copy of a patched thread. Its patches have no `undefined`. -/
def applyPatch (thread : ServerThread) (patch : ServerThreadPatch) (at_ : Int) : ServerThread :=
  let value {α : Type} (f : JsField α) (old : α) : α := (f.spreadOver (some old)).getD old
  { thread with
    title := value patch.title thread.title
    titleSource := value patch.titleSource thread.titleSource
    harness := value patch.harness thread.harness
    status := value patch.status thread.status
    unreadDone := value patch.unreadDone thread.unreadDone
    lastActivityAt := value patch.lastActivityAt thread.lastActivityAt
    capabilities := value patch.capabilities thread.capabilities
    terminalId := value patch.terminalId thread.terminalId
    permissionMode := patch.permissionMode.spreadOver thread.permissionMode
    model := patch.model.spreadOver thread.model
    contextUsage := patch.contextUsage.spreadOver thread.contextUsage
    compacting := patch.compacting.spreadOver thread.compacting
    paneAlive := patch.paneAlive.spreadOver thread.paneAlive
    sessionRef := patch.sessionRef.overRef thread.sessionRef
    updatedAt := at_ }

/-- The thread events so far, the threads as they will be, the threads a pane was found for, and how many
ids were asked for. -/
structure HerdWork where
  events : List EventDraft := []
  next : Table (@ThreadOf.id AgentSessionRef)
  claimed : List String := []
  ids : Nat := 0

namespace HerdWork

def push (w : HerdWork) (threadId : String) (payload : ServerPayload) : HerdWork :=
  { w with events := w.events ++ [{ threadId := some threadId, payload }] }

def modify (w : HerdWork) (threadId : String) (f : ServerThread → ServerThread) : HerdWork :=
  match w.next.find? threadId with
  | none => w
  | some thread => { w with next := w.next.set (f thread) }

def claim (w : HerdWork) (threadId : String) : HerdWork := { w with claimed := w.claimed ++ [threadId] }

variable (at_ : Int)

def patch (w : HerdWork) (threadId : String) (p : ServerThreadPatch) : HerdWork :=
  (w.push threadId (.threadUpdated p at_)).modify threadId (applyPatch · p at_)

def shelfActive (w : HerdWork) (threadId : String) : HerdWork :=
  (w.push threadId (.threadShelfChanged .active none none at_)).modify threadId (·.reshelved .active none none at_)

/-- End the thread's runs, expire its requests and archive it; its pane is gone. -/
def archive (w : HerdWork) (projection : HerdProjection) (json : RuntimeRequest → String)
    (threadId : String) (reason : ArchiveReason) : HerdWork :=
  let runs := (projection.openRuns.filter (·.threadId = threadId)).map fun run =>
    { threadId := some threadId, payload := .runEnded run.id .interrupted at_ : EventDraft }
  let requests := (projection.pendingRequests.filter (·.threadId = threadId)).flatMap fun request =>
    requestEvents json { request with status := .expired, updatedAt := at_ }
  let w : HerdWork := { w with events := w.events ++ runs ++ requests }
  let w := (w.push threadId (.threadArchived reason at_)).modify threadId fun t =>
    { t with shelf := .archived, archivedAt := some at_, archiveReason := some reason, updatedAt := at_ }
  if ((w.next.find? threadId).bind (·.paneAlive)) ≠ some false then
    w.patch at_ threadId { paneAlive := .val false }
  else w

def archiveAll (w : HerdWork) (projection : HerdProjection) (json : RuntimeRequest → String)
    (reason : ArchiveReason) (threads : List ServerThread) : HerdWork :=
  threads.foldl (fun w other => (w.claim other.id).archive at_ projection json other.id reason) w

end HerdWork

section

variable (projection : HerdProjection) (ctx : HerdDiffContext)

/-! ### The panes -/

def onPane (paneId : String) : List ServerThread :=
  projection.threads.filter fun t => t.shelf ≠ .archived && t.paneId = paneId

/-- `byKey.get(threadKey(..))`: the thread of a pane and its terminal. -/
def byKey (paneId terminalId : String) : Option ServerThread :=
  projection.threads.find? fun t => t.paneId = paneId && t.terminalId = terminalId

/-- The pane's thread, and whether it was made before herdr reported the pane's terminal. -/
def threadOfPane (pane : AgentView) : Option ServerThread × Bool :=
  let terminalId := pane.terminalId.getD ""
  match byKey projection pane.paneId terminalId with
  | some thread => (some thread, false)
  | none =>
    let adopted := if terminalId ≠ "" then (onPane projection pane.paneId).find? (·.terminalId = "")
      else none
    (adopted, adopted.isSome)

def openKinds (threadId : String) : List RuntimeRequestKind :=
  (projection.pendingRequests.filter (·.threadId = threadId)).map (·.kind)

def createdThread (pane : AgentView) (id : String) : ServerThread :=
  let harness := harnessFor ctx pane
  let activity := ctx.activity pane.paneId
  let unreadDone := isUnreadDone pane.status activity
  { id
    paneId := pane.paneId
    terminalId := pane.terminalId.getD ""
    projectId := pane.workspaceId
    title := herdTitle pane harness
    titleSource := .herd
    harness
    status := threadStatusFor pane.status unreadDone
    shelf := .active
    unreadDone
    lastActivityAt := (ctx.touchedAt pane.paneId <|> activity.map (·.activeAt)).getD ctx.now
    createdAt := ctx.now
    updatedAt := ctx.now
    capabilities := ctx.capabilities harness
    paneAlive := some true
    sessionRef := pane.agentSession }

/-- What a live thread's row should say now, as a patch, with its status. -/
def paneStatus (pane : AgentView) (current : ServerThread) : ThreadStatus :=
  if current.status = .starting && pane.shell then current.status
  else threadStatusFor pane.status (isUnreadDone pane.status (ctx.activity pane.paneId))
    (openKinds projection current.id) current.status

def changed {α : Type} [DecidableEq α] (old new : α) : JsField α := if old = new then .absent else .val new

def panePatch (pane : AgentView) (adopted : Bool) (current : ServerThread) : ServerThreadPatch :=
  let harness := harnessFor ctx pane
  let activity := ctx.activity pane.paneId
  let unreadDone := isUnreadDone pane.status activity
  -- An agent is starting in this pane and herdr still sees the bare shell.
  let spawning := current.status = .starting && pane.shell
  { terminalId := if adopted then .val (pane.terminalId.getD "") else .absent
    paneAlive := if current.paneAlive = some true then .absent else .val true
    harness := if spawning then .absent else changed current.harness harness
    capabilities := if spawning then .absent else changed current.capabilities (ctx.capabilities harness)
    title := if spawning || current.titleSource ≠ .herd then .absent
      else changed current.title (herdTitle pane harness)
    unreadDone := if spawning then .absent else changed current.unreadDone unreadDone
    status := changed current.status (paneStatus projection ctx pane current)
    lastActivityAt :=
      match ctx.touchedAt pane.paneId <|> activity.map (·.activeAt) with
      | none => .absent
      | some lastActivityAt => changed current.lastActivityAt lastActivityAt
    sessionRef := if current.sessionRef = pane.agentSession then .absent else .val pane.agentSession }

/-- The live thread of a pane is brought in line with it. -/
def updateThread (w : HerdWork) (pane : AgentView) (adopted : Bool) (threadId : String) : HerdWork :=
  match w.next.find? threadId with
  | none => w
  | some current =>
    let p := panePatch projection ctx pane adopted current
    let w := if p ≠ {} then w.patch ctx.now threadId p else w
    -- A snoozed or settled thread that finishes work comes back to the active list.
    if (current.shelf = .snoozed ∨ current.shelf = .settled) ∧ current.status = .working ∧
        paneStatus projection ctx pane current ≠ .working then w.shelfActive ctx.now threadId
    else w

def knownPane (w : HerdWork) (pane : AgentView) (adopted : Bool) (thread : ServerThread) : HerdWork :=
  let w := w.claim thread.id
  if thread.shelf = .archived then
    -- Revived unless the operator, a new terminal or a failed spawn archived it.
    if thread.archiveReason ≠ some .paneClosed ∧ thread.archiveReason ≠ some .closedWhileDown then
      if thread.paneAlive ≠ some true then w.patch ctx.now thread.id { paneAlive := .val true } else w
    else updateThread projection ctx (w.shelfActive ctx.now thread.id) pane adopted thread.id
  else updateThread projection ctx w pane adopted thread.id

def paneStep (w : HerdWork) (pane : AgentView) : HerdWork :=
  let (thread, adopted) := threadOfPane projection pane
  -- Any other live thread on this pane belonged to an earlier terminal.
  let others := (onPane projection pane.paneId).filter fun other => thread.all (other.id ≠ ·.id)
  let w := w.archiveAll ctx.now projection ctx.requestJson .terminalReplaced others
  match thread with
  | some thread => knownPane projection ctx w pane adopted thread
  | none =>
    let thread := createdThread ctx pane (ctx.newId w.ids)
    let w := w.push thread.id (.threadCreated thread)
    { w with next := w.next.set thread, ids := w.ids + 1 }

/-! ### Threads whose pane is gone -/

def missingStep (live : List String) (s : HerdWork × List String) (thread : ServerThread) :
    HerdWork × List String :=
  let (w, missing) := s
  if thread.id ∈ w.claimed ∨ thread.shelf = .archived ∨ thread.paneId ∈ live then (w, missing)
  else if ctx.first then
    (w.archive ctx.now projection ctx.requestJson thread.id .closedWhileDown, missing)
  else if thread.status = .starting ∧ ctx.now - thread.updatedAt < STARTING_GRACE_MS then (w, missing)
  else if thread.id ∈ ctx.missingThreads then
    (w.archive ctx.now projection ctx.requestJson thread.id .paneClosed, missing)
  else (w, missing ++ [thread.id])

/-- A thread the operator archived is closed once Herdr stops listing its pane. -/
def closedStep (live : List String) (w : HerdWork) (thread : ServerThread) : HerdWork :=
  if thread.shelf ≠ .archived ∨ thread.archiveReason ≠ some .user ∨ thread.paneAlive = some false ∨
      thread.id ∈ w.claimed ∨ thread.paneId ∈ live then w
  else w.patch ctx.now thread.id { paneAlive := .val false }

def snoozeStep (w : HerdWork) (thread : ServerThread) : HerdWork :=
  if thread.shelf = .snoozed ∧ thread.snoozedUntil.any (· ≤ ctx.now) then w.shelfActive ctx.now thread.id
  else w

/-! ### Projects -/

structure DesiredWorkspace where
  id : String
  label : String
  number : Int
  repoKey : Option String := none
  worktreeOf : Option String := none
  branch : Option String := none
  deriving DecidableEq

def orElseText (a b : String) : String := if a = "" then b else a

/-- One per workspace, and one per workspace that a pane names and the list missed. -/
def desiredWorkspaces (snap : EngineSnapshot) : Table DesiredWorkspace.id :=
  let listed := snap.workspaces.foldl (fun (t : Table DesiredWorkspace.id) w => t.set {
    id := w.workspaceId
    label := orElseText w.label w.workspaceId
    number := w.number
    repoKey := w.worktree.map (·.repoKey)
    worktreeOf := (w.worktree.filter (·.isLinkedWorktree)).map (·.repoKey)
    branch := (ctx.branchOf w.workspaceId).filter (· ≠ "") }) .empty
  snap.panes.foldl (fun (t : Table DesiredWorkspace.id) pane =>
    if t.has pane.workspaceId then t
    else t.set {
      id := pane.workspaceId
      label := orElseText pane.workspaceLabel pane.workspaceId
      number := pane.workspaceNumber }) listed

/-- A project's roll-up of its active and pinned threads. -/
def rollUp (threads : List ServerThread) (projectId : String) : ThreadStatus :=
  worstStatus ((threads.filter fun t =>
    (t.shelf = .active || t.shelf = .pinned) && t.projectId = projectId).map (·.status))

def desiredProject (existing : Option Project) (w : DesiredWorkspace) (status : ThreadStatus) : Project :=
  let user := existing.filter (·.labelSource = .user)
  { id := w.id
    label := (user.map (·.label)).getD w.label
    labelSource := if user.isSome then .user else .herd
    number := w.number
    order := w.number
    repoKey := w.repoKey
    worktreeOf := w.worktreeOf
    branch := w.branch
    status
    -- The operator's snapshot switch is not the herd's.
    checkpoints := existing.bind (·.checkpoints) }

def sameProject (a b : Project) : Bool := decide ({ a with id := b.id, checkpoints := b.checkpoints } = b)

def projectEvents (workspaces : List DesiredWorkspace) (threads : List ServerThread) : List EventDraft :=
  workspaces.filterMap fun w =>
    let existing := projection.projects.find? (·.id = w.id)
    let desired := desiredProject existing w (rollUp threads w.id)
    if existing.any (sameProject · desired) then none
    else some { payload := .projectUpserted desired }

/-- Projects whose workspace is gone: their status, and their close at the second look. -/
def closeEvents (workspaces : List DesiredWorkspace) (threads : List ServerThread) : List EventDraft :=
  (projection.projects.filter fun p => p.id ∉ workspaces.map (·.id)).flatMap fun existing =>
    let status := rollUp threads existing.id
    (if status ≠ existing.status then
      [{ payload := .projectUpserted { existing with status } }] else []) ++
    (if existing.closedAt = none ∧ (ctx.first ∨ existing.id ∈ ctx.missingProjects) then
      [{ payload := .projectClosed existing.id ctx.now }] else [])

def missingProjects (workspaces : List DesiredWorkspace) : List String :=
  (projection.projects.filter fun p => p.id ∉ workspaces.map (·.id) ∧ p.closedAt = none ∧
    ¬ (ctx.first ∨ p.id ∈ ctx.missingProjects)).map (·.id)

/-! ### The diff -/

def startWork : HerdWork where
  next := projection.threads.foldl Table.set .empty

/-- The panes, then the threads whose pane is gone, then expired snoozes. -/
def threadWork (snap : EngineSnapshot) : HerdWork × List String :=
  let live := snap.panes.map (·.paneId)
  let w := snap.panes.foldl (paneStep projection ctx) (startWork projection)
  let (w, missing) := projection.threads.foldl (missingStep projection ctx live) (w, [])
  let w := projection.threads.foldl (closedStep ctx live) w
  (w.next.rows.foldl (snoozeStep ctx) w, missing)

/-- The events that bring the projection in line with the herd: project upserts for live workspaces, then
thread events, then closed projects. -/
def diffHerd (snap : EngineSnapshot) : HerdDiff :=
  let (w, missingThreads) := threadWork projection ctx snap
  let workspaces := (desiredWorkspaces ctx snap).rows
  { events := projectEvents projection workspaces w.next.rows ++ w.events ++
      closeEvents projection ctx workspaces w.next.rows
    missingThreads
    missingProjects := missingProjects projection ctx workspaces }

end

end Sightr
