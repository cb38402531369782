import Sightr.Checkpoints.Git
import Sightr.Lib.Runs

/-!
# One snapshot

`snapshotNow` of `bridge/threads/checkpoint-git.ts`: a temp index seeded from the real one, the untracked files that
pass the caps, the removal of tracked names that are refused, `update-index` and `add`, `write-tree` in rounds until
two trees agree, the cut of a sparse index's tree and the commit. Each call of `git`, each `lstat` of the untracked
pass and each change of the worktree by others is an event; a call that fails, times out or has too much to say
stops the snapshot. The stats of hidden paths, the counts of the outcome and the commit's texts are left out.
-/

namespace Sightr.Checkpoints

open Files

def SETTLE_ROUNDS : Nat := 3

/-- A refused name at the root, removed to invalidate the root of the cache tree. -/
def TREE_RESET_PATH : Path := [".sightr-tree-reset".toList]

structure SnapshotCaps where
  maxFileBytes : Nat := 5 * 1024 * 1024
  maxUntrackedFiles : Nat := 5000
  maxUntrackedBytes : Nat := 64 * 1024 * 1024
  maxTrackedChanges : Nat := 20000

/-- The platform, the repository's settings that a snapshot reads, and the caps. -/
structure SnapshotConfig where
  windows : Bool := false
  sparseCheckout : Bool := false
  caps : SnapshotCaps := {}

inductive SnapshotFailure
  | tooLarge | timeout | gitFailed | sparseCheckout
  deriving DecidableEq

inductive SnapshotOutcome
  | captured (tree : Tree) (unsettled : Bool)
  /-- The ref existed, and names an earlier commit. -/
  | reused
  | failed (reason : SnapshotFailure)
  deriving DecidableEq

inductive AfterSync
  | untracked
  | round (n : Nat) (tree : Tree)

/-- What `addLiteral` adds: the conflicted paths of a `syncTracked`, or the untracked files. -/
inductive AddFor
  | conflicted (paths list : List Path) (next : AfterSync)
  | untracked

/-- The loop of `update-index` calls in `syncTracked`. -/
structure Updating where
  conflicted : List Path
  list : List Path
  attempt : Nat
  passes : Nat
  behindLink : List Path
  next : AfterSync

inductive SnapshotStage
  | opening
  | seeding
  | outside
  | candidates
  | refreshing
  | dirty
  | others (dirtyPaths : List Path)
  | checking (dirtyPaths rest : List Path)
  | hiding (dirtyPaths : List Path)
  | puttingBack (list : List Path) (next : AfterSync)
  | adding (pending : List Path) (attempt : Nat) (purpose : AddFor)
  | updating (u : Updating)
  | forcing (removed : List Path) (u : Updating)
  | resetting (round : Option (Nat × Tree))
  | writing (round : Option (Nat × Tree))
  | settling (n : Nat) (tree : Tree)
  | cutting (tree : Tree) (unsettled : Bool)
  | rechecking (tree : Tree) (unsettled : Bool)
  | committing (tree : Tree) (unsettled : Bool)
  | reffing (tree : Tree) (unsettled : Bool)
  | answered (outcome : SnapshotOutcome)

structure Snapshot where
  worktree : Worktree
  index : Index := {}
  originals : List IndexEntry := []
  sparseDirs : List (Path × Tree) := []
  skipWorktree : List Path := []
  copied : List Blob := []
  allowed : List (Path × Nat) := []
  unreadable : List Path := []
  rewritten : List Path := []
  /-- The regular files that `lstat` found in the untracked pass, with their sizes. -/
  looked : List (Path × Nat) := []
  stage : SnapshotStage := .opening

inductive SnapshotEvent
  | touch (worktree : Worktree)
  | stop (reason : SnapshotFailure)
  | ok
  | found
  /-- The index could be read as the file holds it. -/
  | seed (index : Index)
  /-- It could not, and HEAD's tree, or nothing, takes its place. -/
  | seedHead (index : Index)
  | differ (paths : List Path)
  /-- `add` names a pathspec that matches nothing. -/
  | vanished (p : Path)
  /-- `add` is done, but for the files it could not read. -/
  | added (unreadable : List Path)
  /-- `update-index` is done, but for the names it ignores. -/
  | updated (ignored : List Path)
  /-- `update-index` wrote nothing: paths it cannot read, and paths behind a link. -/
  | refused (paths removed : List Path)

namespace Snapshot

variable (c : SnapshotConfig) (w : Snapshot) (p : Path)

def isHidden : Bool := hidden c.windows p

def answer (outcome : SnapshotOutcome) : Snapshot := { w with stage := .answered outcome }

def unmerged : Bool := w.originals.any fun e => e.path = p && e.stage ≠ 0

def outsideOnDisk : Bool :=
  !w.sparseDirs.isEmpty && (w.skipWorktree ++ w.sparseDirs.map Prod.fst).any fun p =>
    -- Nothing is where the folder is gone.
    (p.length ≤ 1 || (w.worktree.lstat p.dropLast).isSome) && (w.worktree.lstat p).isSome

/-- The real blobs that are copied into the store before files are rehashed. -/
def blobsToCopy (paths : List Path) : List Blob :=
  ((paths.filter fun p => !isHidden c p).flatMap fun p => (w.originals.filter (·.path =
      p)).map IndexEntry.blob).filter
    fun b => !(match b with | .gitlink _ => true | .file _ o => o.bytes = 0 | .link _ => false)

def copyBlobs (paths : List Path) : Snapshot := { w with copied := w.copied ++ w.blobsToCopy c paths }

/-- After `syncTracked`: the untracked files, or the next tree. -/
def leaveSync : AfterSync → Snapshot
  | .untracked =>
    if w.allowed.isEmpty then { w with stage := .resetting none }
    else { w with stage := .adding (w.allowed.map Prod.fst) 0 .untracked }
  | .round n tree => { w with stage := .resetting (some (n, tree)) }

def finishSync (u : Updating) : Snapshot :=
  { w with
    rewritten := w.rewritten ++ (u.conflicted ++ u.list ++ u.behindLink).filter (· ∉ w.unreadable) }.leaveSync u.next

def enterUpdate (u : Updating) : Snapshot :=
  if u.list.isEmpty then w.finishSync u
  else if u.passes < u.attempt then w.answer (.failed .gitFailed)
  else { w with stage := .updating u }

/-- `syncTracked` after the conflicted paths were added. -/
def enterList (conflicted list : List Path) (next : AfterSync) : Snapshot :=
  let list := list.filter fun p => !w.unmerged p
  w.enterUpdate { conflicted, list, attempt := 0, passes := list.length, behindLink := [], next }

def enterCopy (list : List Path) (next : AfterSync) : Snapshot :=
  let w := w.copyBlobs c list
  let conflicted := list.filter w.unmerged
  if conflicted.isEmpty then w.enterList [] list next
  else { w with stage := .adding conflicted 0 (.conflicted conflicted list next) }

def enterSync (paths : List Path) (next : AfterSync) : Snapshot :=
  let list := paths.filter fun p => !isHidden c p && p ∉ w.unreadable
  if list.isEmpty then w.leaveSync next
  else if list.any fun p => p ∈ w.rewritten && w.originals.any (·.path = p) then
    { w with stage := .puttingBack list next }
  else w.enterCopy c list next

/-- The real entries of the paths that an earlier round rewrote. -/
def backEntries (list : List Path) : List IndexEntry := w.originals.filter fun e =>
    e.path ∈ list && e.path ∈ w.rewritten

def leaveAdd : AddFor → Snapshot
  | .conflicted paths list next => w.enterList paths list next
  | .untracked => { w with stage := .resetting none }

/-- The loop of `addLiteral`, for the paths still pending. -/
def enterAdd (pending : List Path) (attempt : Nat) (purpose : AddFor) : Snapshot :=
  if pending.isEmpty then w.leaveAdd purpose
  else if attempt < 5 then { w with stage := .adding pending attempt purpose }
  else w.answer (.failed .gitFailed)

/-- After a `refused` call, without the paths that cannot be read or are behind a link. -/
def retryUpdate (u : Updating) : Snapshot :=
  w.enterUpdate { u with
    list := u.list.filter fun p => p ∉ w.unreadable && p ∉ u.behindLink, attempt := u.attempt + 1 }

def check (dirtyPaths rest : List Path) (p : Path) : Snapshot :=
  let w := { w with stage := .checking dirtyPaths rest }
  if isHidden c p then w
  else match w.worktree.lstat p with
    | some (.file (.file _ size _)) =>
      let w := { w with looked := w.looked ++ [(p, size)] }
      if c.caps.maxFileBytes < size then w
      else
        let w := { w with allowed := w.allowed ++ [(p, size)] }
        if c.caps.maxUntrackedFiles < w.allowed.length ∨ c.caps.maxUntrackedBytes < (w.allowed.map Prod.snd).sum then
          w.answer (.failed .tooLarge)
        else w
    -- Gone since the listing, or no regular file.
    | _ => w

def readIndex (index : Index) : Snapshot :=
  { w with
    index, originals := index.entries, sparseDirs := index.folders
    skipWorktree := (index.entries.filter (·.skipWorktree)).map IndexEntry.path, stage := .outside }

def hiddenTracked : List Path := (w.originals.map IndexEntry.path).filter (isHidden c)

variable (tree : Tree)

def enterCut (unsettled : Bool) : Snapshot :=
  if w.sparseDirs.isEmpty then { w with stage := .committing tree unsettled }
  else { w with stage := .cutting tree unsettled }

/-- A tree is written: the first, or one to compare with the last. -/
def written : Option (Nat × Tree) → Snapshot
  | none => { w with stage := .settling 0 tree }
  | some (n, last) =>
    if tree = last then w.enterCut tree false
    else if n + 1 < SETTLE_ROUNDS then { w with stage := .settling (n + 1) tree }
    else w.enterCut tree true

def refusedTops : List Path := tree.paths.filter fun p =>
  isHidden c p && (p.length ≤ 1 || !isHidden c p.dropLast)

/-- Step 4b: the sparse folders must be in the tree as the index named them; the refused names are cut. -/
def cut (unsettled : Bool) : Snapshot :=
  if w.sparseDirs.all fun f => tree.folder? f.1 = some f.2 then
    let refused := refusedTops c tree
    { w with stage := .rechecking (if refused.isEmpty then tree else tree.prune refused) unsettled }
  else w.answer (.failed .gitFailed)

def step : SnapshotEvent → Option Snapshot
  | .touch worktree => some { w with worktree }
  | .stop reason => match w.stage with
    | .answered _ => none
    | _ => some (w.answer (.failed reason))
  | .found => match w.stage with
    | .opening | .reffing _ _ => some (w.answer .reused)
    | _ => none
  | .seed index => match w.stage with
    | .seeding => some (w.readIndex index)
    | _ => none
  | .seedHead index => match w.stage with
    | .seeding =>
      if c.sparseCheckout then some (w.answer (.failed .sparseCheckout))
      else if index.folders.isEmpty then some (w.readIndex index)
      else none
    | _ => none
  | .differ paths =>
    if paths.all w.index.has then
      match w.stage with
      | .candidates =>
        if paths.length ≤ c.caps.maxTrackedChanges then some { w.copyBlobs c paths with stage := .refreshing }
        else some { w with stage := .refreshing }
      | .dirty =>
        if c.caps.maxTrackedChanges < paths.length then some (w.answer (.failed .tooLarge))
        else some { w with stage := .others paths }
      | .settling n tree =>
        if c.caps.maxTrackedChanges < paths.length then some (w.answer (.failed .tooLarge))
        else some (w.enterSync c paths (.round n tree))
      | _ => none
    else none
  | .vanished p => match w.stage with
    | .adding pending attempt purpose =>
      if p ∈ pending ∧ w.index.matchesSpec w.worktree p = false then
        some (w.enterAdd (pending.filter (· ≠ p)) (attempt + 1) purpose)
      else none
    | _ => none
  | .added unreadable => match w.stage with
    | .adding pending _ purpose =>
      if pending.all (w.index.matchesSpec w.worktree) then
        some ({ w with
          index := w.index.add w.worktree unreadable pending
          unreadable := w.unreadable ++ unreadable }.leaveAdd purpose)
      else none
    | _ => none
  | .updated ignored => match w.stage with
    | .updating u => some ({ w with
        index := w.index.update w.worktree (u.list.filter (· ∉ ignored))
        unreadable := w.unreadable ++ ignored }.finishSync u)
    | _ => none
  | .refused paths removed => match w.stage with
    | .updating u =>
      if paths.isEmpty && removed.isEmpty then none
      else
        let w := { w with unreadable := w.unreadable ++ paths }
        if removed.isEmpty then some (w.retryUpdate u) else some { w with stage := .forcing removed u }
    | _ => none
  | .ok => match w.stage with
    | .opening => some { w with stage := .seeding }
    | .outside =>
      if w.outsideOnDisk then some (w.answer (.failed .sparseCheckout)) else some { w with stage := .candidates }
    | .refreshing => some { w with stage := .dirty }
    | .others dirtyPaths => some { w with stage := .checking dirtyPaths (w.index.others w.worktree) }
    | .checking dirtyPaths (p :: rest) => some (w.check c dirtyPaths rest p)
    | .checking dirtyPaths [] =>
      if (w.hiddenTracked c).isEmpty then some (w.enterSync c dirtyPaths .untracked)
      else some { w with stage := .hiding dirtyPaths }
    | .hiding dirtyPaths =>
      some ({ w with index := w.index.remove (w.hiddenTracked c) }.enterSync c dirtyPaths .untracked)
    | .puttingBack list next =>
      some ({ w with index := w.index.putBack (w.backEntries list) }.enterCopy c list next)
    | .forcing removed u =>
      some ({ w with index := w.index.remove removed }.retryUpdate { u with behindLink := u.behindLink ++ removed })
    | .resetting round => some { w with index := w.index.remove [TREE_RESET_PATH], stage := .writing round }
    | .writing round => (w.index.writeTree).map fun tree => w.written tree round
    | .cutting tree unsettled => some (w.cut c tree unsettled)
    | .rechecking tree unsettled =>
      if w.outsideOnDisk then some (w.answer (.failed .sparseCheckout))
      else some { w with stage := .committing tree unsettled }
    | .committing tree unsettled => some { w with stage := .reffing tree unsettled }
    | .reffing tree unsettled => some (w.answer (.captured tree unsettled))
    | .candidates | .dirty | .seeding | .adding .. | .updating _ | .settling .. | .answered _ => none

/-- A snapshot about to begin, whatever the worktree is. -/
def start (worktree : Worktree) : Snapshot := { worktree }

/-! ### Tracked paths, and paths that passed the cap -/

/-- A path of the repository's index, or in a folder outside its sparse cone. -/
def Tracked : Prop := (∃ e ∈ w.originals, e.path = p) ∨ ∃ f ∈ w.sparseDirs, f.1 <+: p

/-- An untracked file that `lstat` found within the cap. -/
def Passed : Prop := ∃ size, (p, size) ∈ w.looked ∧ size ≤ c.caps.maxFileBytes

end Snapshot

end Sightr.Checkpoints
