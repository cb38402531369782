import Mathlib.Data.List.Sort
import Sightr.Store.Append

/-!
# Snapshots

The two snapshots a stream opens with: `snapshotShell` and `snapshotThread` of
`bridge/threads/store.ts`.
-/

namespace Sightr

/-- How many runs a thread-open snapshot reaches back. -/
def SNAPSHOT_RUNS : Nat := 3

/-- How many items a thread-open snapshot holds at most. -/
def MAX_SNAPSHOT_ITEMS : Nat := 200

/-! ### Queries -/

namespace Projection

variable (p : Projection)

def listProjects : List Project :=
  p.projects.rows.insertionSort fun a b => a.order < b.order ∨ a.order = b.order ∧ a.id ≤ b.id

def listThreads : List ServerThread :=
  p.threads.rows.insertionSort fun a b =>
    a.createdAt < b.createdAt ∨ a.createdAt = b.createdAt ∧ a.id ≤ b.id

def pendingRows : List RequestRow :=
  (p.runtimeRequests.rows.filter (·.body.status = .pending)).insertionSort fun a b =>
    a.updatedSequence ≤ b.updatedSequence

def pendingRequests : List RuntimeRequest := p.pendingRows.map (·.body)

variable (threadId : String)

def requestsFor (pendingOnly : Bool) : List RuntimeRequest :=
  ((p.runtimeRequests.rows.filter fun r =>
    r.body.threadId = threadId && (!pendingOnly || r.body.status = .pending)).insertionSort
    fun a b => a.updatedSequence ≤ b.updatedSequence).map (·.body)

def listRuns (limit : Nat) : List Run :=
  let runs := (p.runs.rows.filter (·.threadId = threadId)).insertionSort (·.ordinal ≤ ·.ordinal)
  runs.drop (runs.length - limit)

def itemRows : List TurnItemRow :=
  (p.turnItems.rows.filter (·.threadId = threadId)).insertionSort (·.position ≤ ·.position)

theorem mem_itemRows_iff {p : Projection} {threadId : String} {row : TurnItemRow} :
    row ∈ p.itemRows threadId ↔ row ∈ p.turnItems.rows ∧ row.threadId = threadId := by
  simp [itemRows]

def listQueued : List QueuedMessage :=
  (p.queuedMessages.rows.filter (·.threadId = threadId)).insertionSort (·.position ≤ ·.position)

/-- The run as a snapshot gives it: with `checkpoint` when it has a row. -/
def withCheckpoint (run : Run) : Run :=
  { run with checkpoint := (p.runCheckpoints.find? run.id).map checkpointFromRow }

end Projection

/-! ### The shell -/

def summary (request : RuntimeRequest) : RuntimeRequestSummary :=
  { request.toRuntimeRequestSummary with preview := none }

structure ShellSnapshot where
  sequence : Nat
  projects : List Project
  threads : List Thread
  requests : List RuntimeRequestSummary
  deriving DecidableEq

def Db.snapshotShell (db : Db) : ShellSnapshot where
  sequence := db.lastSequence
  projects := db.projection.listProjects
  threads := db.projection.listThreads.map toWireThread
  requests := db.projection.pendingRequests.map summary

/-! ### One thread -/

structure ThreadSnapshot where
  sequence : Nat
  thread : Thread
  runs : List Run
  items : List TurnItem
  requests : List RuntimeRequest
  queue : List QueuedMessage
  /-- The position the history cursor encodes; none when nothing is older. -/
  historyCursor : Option Int
  deriving DecidableEq

namespace Projection

/-- The position of the earliest item of the given runs; with no runs, or runs with no items yet,
every item is returned. -/
def runsFrom (p : Projection) (runs : List Run) : Int :=
  let positions := (p.turnItems.rows.filter fun item =>
    runs.any fun run => item.runId = some run.id).map (·.position)
  positions.min?.getD 0

/-- Where a snapshot's window of items starts: at the returned runs, or at the newest
`MAX_SNAPSHOT_ITEMS` items, whichever is newer. -/
def windowFrom (p : Projection) (threadId : String) (runs : List Run) : Int :=
  let start := p.runsFrom runs
  match (p.itemRows threadId).reverse[MAX_SNAPSHOT_ITEMS - 1]? with
  | none => start
  | some item => max start item.position

end Projection

def Db.snapshotThread (db : Db) (id : String) (limit : Nat := SNAPSHOT_RUNS) : Option ThreadSnapshot :=
  let p := db.projection
  match p.threads.find? id with
  | none => none
  | some thread =>
    let runs := p.listRuns id limit
    let start := p.windowFrom id runs
    some {
      sequence := db.lastSequence
      thread := toWireThread thread
      runs := runs.map p.withCheckpoint
      items := ((p.itemRows id).filter (start ≤ ·.position)).map (·.body)
      requests := p.requestsFor id true
      queue := p.listQueued id
      historyCursor := if (p.itemRows id).any (·.position < start) then some start else none }

theorem Db.sequence_snapshotThread {db : Db} {id : String} {limit : Nat} {snapshot : ThreadSnapshot}
    (h : db.snapshotThread id limit = some snapshot) : snapshot.sequence = db.lastSequence := by
  unfold Db.snapshotThread at h
  dsimp only at h
  split at h <;> cases h
  rfl

end Sightr
