import Sightr.Checkpoints.Retention
import Sightr.Lib.Runs

/-!
# The retention sweep

`sweep` of `bridge/threads/checkpoints.ts`, step by step between its awaits, over the calls of
`bridge/threads/checkpoint-git.ts`: the stores on disk and their meta files, then for each store, in its slot of the
store queue, the rows, the refs, and three passes that drop refs (due rows, rows whose objects are gone, and the
oldest rows of a store over its cap), each row expired once its refs are gone. Other tasks take the slots of stores
to write meta files and refs and to record rows; runs end, reads expire rows, threads are archived and deleted, and
folders come and go, at any time. A call of `git` that fails leaves the refs as they were. The stored patches, the
counts of the result and the packs' log line are left out.
-/

namespace Sightr.Checkpoints

open Keyed

def MAX_STORE_PACKS : Nat := 16

/-- How often a sweep drops the oldest rows of a store. -/
def MAX_CAP_ROUNDS : Nat := 8

structure SweepConfig where
  maxStoreBytes : Nat := 256 * 1024 * 1024

/-- A private store on disk: the repository its meta file names, when it can be read, and its refs. -/
structure StoreDir where
  root : Option String := none
  refs : List Ref := []

structure ListedStore where
  key : String
  root : Option String

inductive GitCall
  | deleteRefs (refs : List Ref) (ok : Bool)
  | gc (ok : Bool)
  | objectsMissing (runId : String) (answer : Option Bool)
  | storeBytes (answer : Option Nat)

inductive CollectStage
  | first
  | probing (todo broken : List CheckpointSweepRow)
  | deleting (broken : List CheckpointSweepRow) (refs : List Ref)
  | again

/-- Where the sweep is in a store's slot: the call it awaits. -/
inductive SlotStage
  | removing
  | listing
  | deletingGone (gone : List Ref) (expiring : List CheckpointSweepRow)
  | sizing
  /-- After it, the given round of the cap's loop. -/
  | collecting (stage : CollectStage) (round : Nat)
  | capping (round : Nat)
  | dropping (round : Nat) (batch : List CheckpointSweepRow) (refs : List Ref)

/-- The sweep in a store's slot, with the rows it read there. -/
structure SweepSlot where
  store : ListedStore
  rootGone : Bool
  rows : List CheckpointSweepRow
  left : List Ref := []
  calls : List GitCall := []
  /-- The store's repository when the slot was taken, and whether it was there. -/
  repo : Option String
  there : Bool
  stage : SlotStage

inductive SweepStage
  | listing
  | reading (todo : List String) (found : List ListedStore)
  | stores (todo : List ListedStore)
  | waiting (s : ListedStore) (rootGone : Bool) (todo : List ListedStore)
  | slot (s : SweepSlot) (todo : List ListedStore)
  | roots (todo : List CheckpointSweepRow)

structure Sweep where
  time : Int
  expired : List String := []
  stage : SweepStage := .listing

structure SweepWorld where
  rows : Table CheckpointSweepRow.runId
  /-- The runs that ever had a row; ids are not used again. -/
  used : List String
  stores : String → Option StoreDir
  present : String → Bool
  held : String → Bool := fun _ => false
  clock : Int := 0
  sweep : Option Sweep := none
  /-- The runs of whose rows the sweep deleted a ref. -/
  dropped : List String := []

inductive SweepEvent
  | tick (clock : Int)
  | appears (root : String) (there : Bool)
  /-- Another task takes a store's slot, and lets it go. -/
  | take (key : String)
  | release (key : String)
  /-- `ensureStore` empties the meta file to write it. -/
  | truncate (key : String)
  | describe (key root : String)
  | snapshot (key : String) (ref : Ref)
  | record (row : CheckpointSweepRow)
  | finish (runId : String) (status : CheckpointStatus) (repoRoot : String) (endCommit : Option String)
  | markExpired (runId : String)
  | archive (threadId : String) (time : Option Int)
  | drop (runIds : List String)
  | sweep (time : Int)
  | names (keys : List String)
  | readMeta
  /-- The next `stat`, or what comes after the last one. -/
  | next
  | enter
  | removed
  | listed (ok : Bool)
  | deleted (ok : Bool)
  | sized (bytes packs : Option Nat)
  | gc (ok : Bool)
  | probed (missing : Option Bool)
  | bytes (answer : Option Nat)

namespace SweepSlot

variable (s : SweepSlot)

def answered (call : GitCall) : SweepSlot := { s with calls := s.calls ++ [call] }

def mine : List CheckpointSweepRow := match s.store.root with
  | none => []
  | some root => s.rows.filter fun r => r.repoRoot ≠ "" ∧ r.repoRoot = root

/-- `byRef`: a later row's entry takes an earlier one's place. -/
def byRef (ref : Ref) : Option CheckpointSweepRow := s.mine.reverse.find? (ref ∈ refsOf ·)

def isGone (time : Int) (ref : Ref) : Bool := match s.byRef ref with
  | none => true
  | some r => r.objectsExpiredAt.isSome || r.runId ∈ dueRows s.rows time

def expiring (time : Int) (refs : List Ref) : List CheckpointSweepRow :=
  (refs.filter (s.isGone time)).filterMap s.byRef

def probed : List CheckpointSweepRow := s.mine.filter fun r => (refsOf r).any (· ∈ s.left)

def refsLeft (rows : List CheckpointSweepRow) : List Ref := (rows.flatMap refsOf).filter (· ∈ s.left)

def olderFirst (a b : CheckpointSweepRow) : Prop := a.runStartedAt ≤ b.runStartedAt

instance : DecidableRel olderFirst := fun _ _ => inferInstanceAs (Decidable (_ ≤ _))
instance : Std.Total olderFirst := ⟨fun a b => Int.le_total a.runStartedAt b.runStartedAt⟩
instance : IsTrans CheckpointSweepRow olderFirst := ⟨fun _ _ _ hab hbc => Int.le_trans hab hbc⟩

/-- The finished rows that are still live, the oldest first. -/
def live (expired : List String) : List CheckpointSweepRow :=
  (s.mine.filter fun r => r.objectsExpiredAt.isNone && r.runId ∉ expired && r.status ≠ .pending).insertionSort
    olderFirst

def batch (expired : List String) : List CheckpointSweepRow :=
  (s.live expired).take (max 1 (((s.live expired).length + 3) / 4))

end SweepSlot

def SweepEvent.bySweep : SweepEvent → Bool
  | .sweep _ | .names _ | .readMeta | .next | .enter | .removed | .listed _ | .deleted _ | .sized .. | .gc _
    | .probed _
  | .bytes _ => true
  | _ => false

namespace SweepWorld

variable (c : SweepConfig) (w : SweepWorld)

def refs (key : String) : List Ref := ((w.stores key).map StoreDir.refs).getD []

def slot? : Option SweepSlot := match w.sweep with
  | some { stage := .slot s _, .. } => some s
  | _ => none

def sweepHolds (key : String) : Bool := w.slot?.any (·.store.key = key)

def expireRow (runIds : List String) (clock : Int) (r : CheckpointSweepRow) : CheckpointSweepRow :=
  if r.runId ∈ runIds ∧ r.objectsExpiredAt.isNone then { r with objectsExpiredAt := some clock } else r

theorem runId_expireRow (runIds : List String) (clock : Int) (r : CheckpointSweepRow) :
    (expireRow runIds clock r).runId = r.runId := by
  unfold expireRow
  split_ifs <;> rfl

def finishRow (runId : String) (status : CheckpointStatus) (repoRoot : String) (endCommit : Option String)
    (r : CheckpointSweepRow) : CheckpointSweepRow :=
  if r.runId = runId then
    { r with status := status, endCommit := endCommit, repoRoot := if r.repoRoot = "" then repoRoot else r.repoRoot }
  else r

theorem runId_finishRow (runId : String) (status : CheckpointStatus) (repoRoot : String) (endCommit : Option String)
    (r : CheckpointSweepRow) : (finishRow runId status repoRoot endCommit r).runId = r.runId := by
  unfold finishRow
  split_ifs <;> rfl

def archiveRow (threadId : String) (time : Option Int) (r : CheckpointSweepRow) : CheckpointSweepRow :=
  if r.threadId = threadId then { r with threadArchivedAt := time } else r

theorem runId_archiveRow (threadId : String) (time : Option Int) (r : CheckpointSweepRow) :
    (archiveRow threadId time r).runId = r.runId := by
  unfold archiveRow
  split_ifs <;> rfl

def expireIds (runIds : List String) : Table CheckpointSweepRow.runId :=
  w.rows.modify (expireRow runIds w.clock) (runId_expireRow runIds w.clock)

/-- The runs that `expire` reports: those whose rows were live. -/
def liveOf (rows : List CheckpointSweepRow) : List String :=
  (rows.map CheckpointSweepRow.runId).filter fun id => w.rows.rows.any fun r => r.runId =
      id && r.objectsExpiredAt.isNone

def expire (sweep : Sweep) (rows : List CheckpointSweepRow) : SweepWorld :=
  { w with
    rows := w.expireIds (rows.map CheckpointSweepRow.runId)
    sweep := some { sweep with expired := sweep.expired ++ w.liveOf rows } }

def goes (stage : SweepStage) : SweepWorld := { w with sweep := w.sweep.map fun sw => { sw with stage } }

/-- The refs that `update-ref` deletes: those of runs. -/
def deletable (refs : List Ref) : List Ref := refs.filter fun
  | .run .. => true
  | .other _ => false

def runsOf (rows : List CheckpointSweepRow) (refs : List Ref) : List String :=
  (rows.filter fun r => (refsOf r).any (· ∈ refs)).map CheckpointSweepRow.runId

variable (s : SweepSlot)

def without (refs : List Ref) : SweepWorld :=
  { w with
    stores := Function.update w.stores s.store.key ((w.stores s.store.key).map fun d =>
      { d with refs := d.refs.filter (· ∉ deletable refs) })
    dropped := w.dropped ++ runsOf s.rows ((w.refs s.store.key).filter (· ∈ deletable refs)) }

def removeStore : SweepWorld :=
  { w with
    stores := Function.update w.stores s.store.key none
    dropped := w.dropped ++ runsOf s.rows (w.refs s.store.key) }

/-- After `collect`: the cap's loop, while the store could be collected. -/
def collected (todo : List ListedStore) (ok : Bool) (round : Nat) : SweepWorld :=
  if ok ∧ round < MAX_CAP_ROUNDS then w.goes (.slot { s with stage := .capping round } todo) else w.goes
      (.stores todo)

/-- The next row `collect` asks about, or the deletion of what is broken. -/
def probe (todo : List ListedStore) (rows broken : List CheckpointSweepRow) (round : Nat) : SweepWorld :=
  if rows.isEmpty then
    if (s.refsLeft broken).isEmpty then w.collected s todo false round
    else w.goes (.slot { s with stage := .collecting (.deleting broken (s.refsLeft broken)) round } todo)
  else w.goes (.slot { s with stage := .collecting (.probing rows broken) round } todo)

/-- In the slot: the rows are read, and an orphan store is told from one with rows. -/
def enter (s : ListedStore) (rootGone : Bool) (todo : List ListedStore) : SweepWorld :=
  let repo := (w.stores s.key).bind StoreDir.root
  let slot : SweepSlot :=
    { store := s, rootGone, rows := w.rows.rows, repo, there := repo.any w.present, stage := .listing }
  w.goes (.slot (if rootGone ∨ slot.mine.isEmpty then { slot with stage := .removing } else slot) todo)

def stepSlot (sw : Sweep) (s : SweepSlot) (todo : List ListedStore) : SweepEvent → Option SweepWorld
  | .removed => match s.stage with
    | .removing =>
      let w := w.removeStore s
      some ((if s.rootGone then w.expire sw s.mine else w).goes (.stores todo))
    | _ => none
  | .listed ok => match s.stage with
    | .listing =>
      if ok then
        let refs := w.refs s.store.key
        let gone := refs.filter (s.isGone sw.time)
        let s := { s with left := refs.filter (· ∉ gone) }
        if gone.isEmpty then some (w.goes (.slot { s with stage := .sizing } todo))
        else some (w.goes (.slot { s with stage := .deletingGone gone (s.expiring sw.time refs) } todo))
      else some (w.goes (.stores todo))
    | _ => none
  | .deleted ok => match s.stage with
    | .deletingGone gone expiring =>
      let calls := s.calls ++ [GitCall.deleteRefs gone ok]
      if ok then
        some (((w.without s gone).expire sw expiring).goes
          (.slot { s with left := s.left, calls, stage := .collecting .first 0 } todo))
      else some (w.goes (.slot { s with calls, stage := .sizing } todo))
    | .collecting (.deleting broken refs) round =>
      let calls := s.calls ++ [GitCall.deleteRefs refs ok]
      if ok then
        some (((w.without s refs).expire sw broken).goes
          (.slot { s with left := s.left.filter (· ∉ refs), calls, stage := .collecting .again round } todo))
      else some (w.collected { s with calls } todo false round)
    | .dropping round batch refs =>
      -- With no ref left there is no call, and nothing fails.
      if refs.isEmpty && !ok then none
      else if ok then
        some (((w.without s refs).expire sw batch).goes (.slot { s with
          left := s.left.filter (· ∉ refs), calls := s.calls ++ [GitCall.deleteRefs refs ok]
          stage := .collecting .first (round + 1) } todo))
      else some (w.goes (.stores todo))
    | _ => none
  | .sized bytes packs => match s.stage with
    | .sizing =>
      let s := s.answered (.storeBytes bytes)
      if bytes.any (c.maxStoreBytes < ·) || packs.any (MAX_STORE_PACKS < ·) then
        some (w.goes (.slot { s with stage := .collecting .first 0 } todo))
      else some (w.goes (.slot { s with stage := .capping 0 } todo))
    | _ => none
  | .gc ok => match s.stage with
    | .collecting .first round =>
      let s := s.answered (.gc ok)
      if ok then some (w.collected s todo true round) else some (w.probe s todo s.probed [] round)
    | .collecting .again round => some (w.collected (s.answered (.gc ok)) todo ok round)
    | _ => none
  | .probed missing => match s.stage with
    | .collecting (.probing (r :: rows) broken) round =>
      let s := s.answered (.objectsMissing r.runId missing)
      some (w.probe s todo rows (if missing = some true then broken ++ [r] else broken) round)
    | _ => none
  | .bytes answer => match s.stage with
    | .capping round =>
      let s := s.answered (.storeBytes answer)
      if answer.any (c.maxStoreBytes < ·) then
        let batch := s.batch sw.expired
        if batch.isEmpty then some (w.goes (.stores todo))
        else some (w.goes (.slot { s with stage := .dropping round batch (s.refsLeft batch) } todo))
      else some (w.goes (.stores todo))
    | _ => none
  | _ => none

/-- The last loop: does the row stand for objects that may have gone with their repository? -/
def asksRoot (expired : List String) (r : CheckpointSweepRow) : Bool :=
  r.objectsExpiredAt.isNone && r.repoRoot ≠ "" && r.startCommit.isSome && r.runId ∉ expired

def stepSweep (sw : Sweep) (a : SweepEvent) : Option SweepWorld := match sw.stage, a with
  | .listing, .names keys => if keys.all fun k => (w.stores k).isSome then some (w.goes (.reading keys [])) else none
  | .reading (key :: todo) found, .readMeta =>
    some (w.goes (.reading todo (found ++ [⟨key, (w.stores key).bind StoreDir.root⟩])))
  | .reading [] found, .next => some (w.goes (.stores found))
  | .stores (s :: todo), .next => some (w.goes (.waiting s (!s.root.any w.present) todo))
  | .stores [], .next => some (w.goes (.roots w.rows.rows))
  | .waiting s rootGone todo, .enter => if w.held s.key then none else some (w.enter s rootGone todo)
  | .roots (r :: todo), .next =>
    some ((if asksRoot sw.expired r && !w.present r.repoRoot then w.expire sw [r] else w).goes (.roots todo))
  | .roots [], .next => some { w with sweep := none }
  | .slot s todo, a => w.stepSlot c sw s todo a
  | _, _ => none

def step : SweepEvent → Option SweepWorld
  | .tick clock => some { w with clock }
  | .appears root there => some { w with present := Function.update w.present root there }
  | .take key => if w.held key || w.sweepHolds key then none else some
    { w with held := Function.update w.held key true }
  | .release key => if w.held key then some { w with held := Function.update w.held key false } else none
  | .truncate key =>
    if w.held key then some { w with stores := Function.update w.stores key (some ⟨none, w.refs key⟩) } else none
  | .describe key root =>
    if w.held key then some { w with stores := Function.update w.stores key (some ⟨some root, w.refs key⟩) } else none
  | .snapshot key ref =>
    if w.held key then
      some { w with
        stores := Function.update w.stores key ((w.stores key).map fun d => { d with refs := d.refs ++ [ref] }) }
    else none
  | .record row =>
    if row.runId ∈ w.used ∨ w.rows.rows.any (fun r => r.threadId = row.threadId && r.appRunOrdinal =
      row.appRunOrdinal)
    then none
    else (w.rows.insert? row).map fun rows => { w with rows, used := w.used ++ [row.runId] }
  | .finish runId status repoRoot endCommit =>
    if status = .pending then none
    else some { w with rows := w.rows.modify (finishRow runId status repoRoot endCommit) (runId_finishRow _ _ _ _) }
  | .markExpired runId => some { w with rows := w.expireIds [runId] }
  | .archive threadId time =>
    some { w with rows := w.rows.modify (archiveRow threadId time) (runId_archiveRow _ _) }
  | .drop runIds => some { w with rows := w.rows.filter (·.runId ∉ runIds) }
  | .sweep time => match w.sweep with
    | none => some { w with sweep := some { time } }
    | some _ => none
  | a => w.sweep.bind fun sw => w.stepSweep c sw a

end SweepWorld

end Sightr.Checkpoints
