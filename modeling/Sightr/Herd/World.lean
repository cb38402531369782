import Sightr.Herd.Writers
import Sightr.Store.Threads

/-!
# The herd ingest at work

The store with the writers of its threads: the herd ingest (`reconcile` of
`bridge/threads/herd-ingest.ts`) with what it keeps between two looks, the commands of `decide`, the
auto-settle timer, the closing of panes, the spawner with its background jobs, and every other writer,
which patches threads but neither makes, shelves nor deletes one. A restart loses what is in memory and
keeps the store.
-/

namespace Sightr

/-! ### What the writers read -/

namespace Projection

/-- Every run still `running`, `ORDER BY started_at, id`. -/
def openRuns (p : Projection) : List Run :=
  (p.runs.rows.filter (·.status = .running)).insertionSort fun a b =>
    a.startedAt < b.startedAt ∨ a.startedAt = b.startedAt ∧ a.id ≤ b.id

def herd (p : Projection) : HerdProjection where
  projects := p.listProjects
  threads := p.listThreads
  openRuns := p.openRuns
  pendingRequests := p.pendingRequests

/-- The highest pin order among the pinned threads, 0 without one. -/
def maxPinOrder (p : Projection) : Rat :=
  (((p.threads.rows.filter (·.shelf = .pinned)).filterMap (·.pinOrder)).max?).getD 0

end Projection

def Command.threadId? : Command → Option String
  | rename threadId _ | pin threadId _ | unpin threadId | snooze threadId _ | unsnooze threadId
  | settle threadId | unsettle threadId | archive threadId | unarchive threadId | delete threadId
  | markRead threadId | markUnread threadId => some threadId
  | projectRename .. | projectCheckpointsSet .. | effect _ => none

def Command.projectId? : Command → Option String
  | projectRename projectId _ | projectCheckpointsSet projectId _ => some projectId
  | _ => none

/-- The rows `decide` gets, read in the tick it runs in. -/
def Projection.decideState (p : Projection) (command : Command) (paneAlive : Bool) : DecideState where
  thread := command.threadId?.bind p.threads.find?
  project := command.projectId?.bind p.projects.find?
  paneAlive
  maxPinOrder := some p.maxPinOrder

/-! ### The state -/

/-- The store and what the bridge has in memory beside it. -/
structure HerdWorld where
  ledger : Ledger
  first : Bool
  missingThreads : List String
  missingProjects : List String
  jobs : List String

namespace HerdWorld

def boot (ledger : Ledger) : HerdWorld where
  ledger
  first := true
  missingThreads := []
  missingProjects := []
  jobs := []

def projection (w : HerdWorld) : Projection := w.ledger.db.projection

variable (w : HerdWorld)

/-- What a reconcile is told, with what the ingest remembers. -/
def context (ctx : HerdDiffContext) : HerdDiffContext :=
  { ctx with
    first := w.first
    missingThreads := w.missingThreads
    missingProjects := w.missingProjects }

def diff (snap : EngineSnapshot) (ctx : HerdDiffContext) : HerdDiff := diffHerd w.projection.herd (w.context ctx) snap

def append (w : HerdWorld) (batch : Batch) : Option HerdWorld :=
  (w.ledger.step (.append batch)).map fun ledger => { w with ledger }

/-- Bring the store in line with a connected snapshot; a failure is logged, and the next poll tries
again. -/
def reconcile (snap : EngineSnapshot) (ctx : HerdDiffContext) (ts : Int) : HerdWorld :=
  let diff := w.diff snap ctx
  match if diff.events = [] then some w else w.append { drafts := diff.events, ts } with
  | none => w
  | some w =>
    { w with
      first := false
      missingThreads := diff.missingThreads
      missingProjects := diff.missingProjects }

/-- A draft of the other writers: they patch threads, but make, shelve and delete none, and no patch of
theirs moves a thread to another terminal or back to `starting`. -/
def OtherWriters (draft : EventDraft) : Prop :=
  match draft.payload with
  | .threadCreated _ | .threadShelfChanged .. | .threadArchived .. | .threadDeleted _ => False
  | .threadUpdated patch _ => patch.terminalId = .absent ∧ patch.status ≠ .val .starting
  | _ => True

instance (draft : EventDraft) : Decidable (OtherWriters draft) := by
  unfold OtherWriters
  split <;> infer_instance

inductive Action
  | reconcile (snap : EngineSnapshot) (ctx : HerdDiffContext) (ts : Int)
  | command (command : Command) (paneAlive : Bool) (options : AppendOptions) (at_ : Int)
  | autoSettle (days : JsNumber Rat) (waiting : List String) (at_ : Int)
  /-- The pane was closed; `thread` is as it was read before. -/
  | closePane (thread : ServerThread) (json : RuntimeRequest → String) (options : AppendOptions) (at_ : Int)
  | spawn (newProject : Option Project) (fields : SpawnFields) (created : CreatedShell) (newId : String)
      (options : AppendOptions) (at_ : Int)
  /-- `fail` of a job, whose clean-up closed the pane or did not. -/
  | jobFails (threadId : String) (stage : CreateStage) (message : String) (closed : Bool)
      (options : AppendOptions) (at_ : Int)
  | jobGivesUp (threadId message : String) (options : AppendOptions) (at_ : Int)
  /-- `finish` finds its thread archived and starts nothing. -/
  | jobReturns (threadId : String)
  | jobReady (threadId : String) (options : AppendOptions) (at_ : Int)
  /-- The bridge restarts: what is in memory is lost. -/
  | restart
  | prune (at_ : Int)
  | other (drafts : List EventDraft) (options : AppendOptions) (ts : Int)

/-- A job ends with a batch; one without events is not appended. -/
def endJob (threadId : String) (drafts : List EventDraft) (options : AppendOptions) (ts : Int) : Option HerdWorld :=
  if threadId ∉ w.jobs then none
  else
    (if drafts = [] then some w else w.append { drafts, options, ts }).map fun w =>
      { w with jobs := w.jobs.erase threadId }

def step (w : HerdWorld) : Action → Option HerdWorld
  | .reconcile snap ctx ts => some (w.reconcile snap ctx ts)
  | .command command paneAlive options at_ =>
    match decideCommand (w.projection.decideState command paneAlive) at_ command with
    | .rejected .. => some w
    | .ok drafts => w.append { drafts, options, ts := at_ }
  | .autoSettle days waiting at_ =>
    match autoSettleEvents w.projection.listThreads at_ days waiting with
    | [] => some w
    | drafts => w.append { drafts, ts := at_ }
  | .closePane thread json options at_ =>
    let p := w.projection
    let drafts := closePaneEvents json p.openRuns p.pendingRequests thread at_
    w.append { drafts, options, ts := at_ }
  | .spawn newProject fields created newId options at_ =>
    if fields.status ≠ .starting ∧ fields.status ≠ .idle then none
    else
      let (threadId, drafts) := spawnEvents w.projection.listThreads newProject fields created newId at_
      (w.append { drafts, options, ts := at_ }).map fun w =>
        -- A plain shell is ready as soon as its pane exists.
        if fields.status = .starting then { w with jobs := w.jobs ++ [threadId] } else w
  | .jobFails threadId stage message closed options at_ =>
    w.endJob threadId (failEvents (w.projection.threads.find? threadId) threadId stage message closed at_) options at_
  | .jobGivesUp threadId message options at_ =>
    w.endJob threadId (giveUpEvents (w.projection.threads.find? threadId) threadId message at_) options at_
  | .jobReturns threadId =>
    if (w.projection.threads.find? threadId).any (·.shelf = .archived) then
      w.endJob threadId [] {} 0
    else none
  | .jobReady threadId options at_ =>
    w.endJob threadId (readyEvents (w.projection.threads.find? threadId) threadId at_) options at_
  | .restart => some (.boot w.ledger)
  | .prune at_ => (w.ledger.step (.prune at_)).map fun ledger => { w with ledger }
  | .other drafts options ts =>
    if ∀ draft ∈ drafts, OtherWriters draft then w.append { drafts, options, ts } else none

/-! ### What a step does to the store -/

def drafts (w : HerdWorld) : Action → List EventDraft
  | .reconcile snap ctx _ => (w.diff snap ctx).events
  | .command command paneAlive _ at_ =>
    (decideCommand (w.projection.decideState command paneAlive) at_ command).events
  | .autoSettle days waiting at_ => autoSettleEvents w.projection.listThreads at_ days waiting
  | .closePane thread json _ at_ =>
    closePaneEvents json w.projection.openRuns w.projection.pendingRequests thread at_
  | .spawn newProject fields created newId _ at_ =>
    (spawnEvents w.projection.listThreads newProject fields created newId at_).2
  | .jobFails threadId stage message closed _ at_ =>
    failEvents (w.projection.threads.find? threadId) threadId stage message closed at_
  | .jobGivesUp threadId message _ at_ =>
    giveUpEvents (w.projection.threads.find? threadId) threadId message at_
  | .jobReady threadId _ at_ => readyEvents (w.projection.threads.find? threadId) threadId at_
  | .jobReturns _ | .restart | .prune _ => []
  | .other drafts _ _ => drafts

/-- What a step does to the ledger: nothing, one batch of the action's drafts, or one prune. -/
inductive StoreStep (w w' : HerdWorld) (a : Action) : Prop
  | same (h : w'.ledger = w.ledger)
  | batch (batch : Batch) (hdrafts : batch.drafts = w.drafts a) (h : w.ledger.step (.append batch) = some w'.ledger)
  | pruned (at_ : Int) (ha : a = .prune at_) (h : w.ledger.step (.prune at_) = some w'.ledger)

variable {w w' : HerdWorld} {batch : Batch}

theorem append_eq_some : w.append batch = some w' ↔
      ∃ ledger, w.ledger.step (.append batch) = some ledger ∧ w' = { w with ledger } := by
  simp [append, @eq_comm _ w']

variable {a : Action}

private theorem StoreStep.of_append {m : HerdWorld} (hdrafts : batch.drafts = w.drafts a)
    (h : w.append batch = some m) (hm : w'.ledger = m.ledger) :
    w.StoreStep w' a := by
  obtain ⟨ledger, hstep, rfl⟩ := append_eq_some.mp h
  exact .batch batch hdrafts (hm ▸ hstep)

theorem StoreStep.of_endJob {threadId : String} {drafts : List EventDraft} {options : AppendOptions}
    {ts : Int} (hdrafts : drafts = w.drafts a) (h : w.endJob threadId drafts options ts = some w') :
    w.StoreStep w' a := by
  unfold endJob at h
  split_ifs at h with hjob hnone
  · simp only [Option.map_some, Option.some.injEq] at h
    exact .same (by rw [← h])
  · obtain ⟨m, hm, rfl⟩ := Option.map_eq_some_iff.mp h
    exact .of_append hdrafts hm rfl

theorem step_store (h : w.step a = some w') : w.StoreStep w' a := by
  cases a with
  | reconcile snap ctx ts =>
    simp only [step, reconcile, Option.some.injEq] at h
    subst h
    by_cases hnone : (w.diff snap ctx).events = []
    · exact .same (by simp only [hnone, if_true])
    · simp only [hnone, if_false]
      split
      · exact .same rfl
      · rename_i m hm
        exact .of_append rfl hm rfl
  | command command paneAlive options at_ =>
    simp only [step] at h
    split at h
    · cases h
      exact .same rfl
    · rename_i events hdecide
      exact .of_append (by simp only [drafts, hdecide, Decision.events]) h rfl
  | autoSettle days waiting at_ =>
    simp only [step] at h
    split at h
    · cases h
      exact .same rfl
    · exact .of_append rfl h rfl
  | closePane thread json options at_ => exact .of_append rfl h rfl
  | spawn newProject fields created newId options at_ =>
    simp only [step] at h
    split at h
    · cases h
    · obtain ⟨m, hm, hw⟩ := Option.map_eq_some_iff.mp h
      refine .of_append rfl hm ?_
      rw [← hw]
      split_ifs <;> rfl
  | jobFails threadId stage message closed options at_ => exact .of_endJob rfl h
  | jobGivesUp threadId message options at_ => exact .of_endJob rfl h
  | jobReturns threadId =>
    simp only [step] at h
    split_ifs at h
    exact .of_endJob rfl h
  | jobReady threadId options at_ => exact .of_endJob rfl h
  | restart =>
    cases h
    exact .same rfl
  | prune at_ =>
    simp only [step] at h
    obtain ⟨ledger, hledger, rfl⟩ := Option.map_eq_some_iff.mp h
    exact .pruned at_ rfl hledger
  | other drafts options ts =>
    simp only [step] at h
    split_ifs at h
    exact .of_append rfl h rfl

/-! ### Runs -/

abbrev Reaches (w w' : HerdWorld) : Prop := Runs.Run step (fun _ _ => True) w w'

def spawnAgent : Action :=
  .spawn (some (testProject "w1"))
    { title := "fixer", titleSource := .user, harness := "claude", status := .starting
      capabilities := noCapabilities }
    { paneId := "w1:p1", terminalId := some "term-1", workspaceId := "w1" } "t1" {} 1000

def barePane : AgentView where
  paneId := "w1:p1"
  terminalId := some "term-1"
  workspaceId := "w1"
  workspaceLabel := "ws w1"
  workspaceNumber := 1
  agent := ""
  status := .unknown
  shell := true

def onePane (pane : AgentView) : EngineSnapshot where
  agents := if pane.shell then [] else [pane]
  shellPanes := if pane.shell then [pane] else []
  workspaces := []

/-- What a reconcile is told at a time when nothing else is known. -/
def quietContext (now : Int) (newId : Nat → String) : HerdDiffContext where
  now
  newId
  first := false
  missingThreads := []
  missingProjects := []
  branchOf := fun _ => none
  activity := fun _ => none
  touchedAt := fun _ => none
  capabilities := fun _ => noCapabilities
  canonicalAgent := id
  requestJson := fun _ => ""

end HerdWorld

end Sightr
