import Sightr.Lib.RowIndex
import Sightr.Store.Runs

/-!
# Deleting a thread

`thread.deleted` in `bridge/threads/store.ts` with the search index of `bridge/threads/search.ts`: the foreign
keys take a thread's runs, items, requests, queue, offset, checkpoints and patches along, the index's triggers
take the items' entries, and the event itself deletes the thread's older events. An item's run is no foreign
key, and the journal ingest writes an item that another thread's log had before with that thread's run.
-/

namespace Sightr

open Keyed (Table RowIndex)

/-! ### The store with its index -/

structure Indexed where
  db : Db
  search : RowIndex String String

namespace Indexed

def new : Indexed := ⟨.empty, .empty⟩

section Index

-- The text of an item's body that is indexed, cut to its length.
variable (textOf : TurnItemBody → String)

/-- What is indexed of an item: user and assistant messages and command inputs. -/
def searchText (row : TurnItemRow) : Option String :=
  if row.type ∈ [.userMessage, .assistantMessage, .commandExecution] then some (textOf row.body.body) else none

def rewritten (old row : TurnItemRow) : Bool := old.body ≠ row.body || old.type ≠ row.type

variable (ix : Indexed)

/-- The store moves on, and the triggers follow its items. -/
def moved (db : Db) : Indexed :=
  ⟨db, ix.search.follow (searchText textOf) rewritten ix.db.projection.turnItems db.projection.turnItems⟩

def writeDraft (options : AppendOptions) (ts : Int) (ix : Indexed) (raw : EventDraft) :
    Except String (Indexed × StoredEvent) := do
  let (db, event) ← ix.db.writeDraft options ts raw
  return (ix.moved textOf db, event)

def append (batch : Batch) : Except String (Indexed × List StoredEvent) := do
  let (ix, written) ← Fold.traceM (writeDraft textOf batch.options batch.ts) ix batch.drafts
  let db ← ix.db.writeReceipt batch.options batch.ts written
  let db ← batch.options.offsets.foldlM Db.setOffset db
  return ({ ix with db := db.insertPatches batch.options.checkpointPatches }, written)

/-- A batch is one transaction: what fails leaves the store. -/
def commit (batch : Batch) : Indexed :=
  match ix.append textOf batch with
  | .ok (ix, _) => ix
  | .error _ => ix

def step : StoreOp → Option Indexed
  | .append batch => some (ix.commit textOf batch)
  | .prune at_ => some (ix.moved textOf (ix.db.prune at_).1)

end Index

def deleteBatch (threadId : String) (at_ : Int) (commandId : Option String) (receipt : Option
      (String × Option String))
    (ts : Int) : Batch :=
  { drafts := [{ threadId := some threadId, payload := .threadDeleted at_ }], options := { commandId, receipt }, ts }

/-! ### What a deletion should leave -/

section Statement

variable (ix : Indexed) (threadId : String)

def OwnsRun (id : String) : Prop := ∃ run ∈ ix.db.projection.runs.rows, run.id = id ∧ run.threadId = threadId

def OwnsItem (id : String) : Prop := ∃ row ∈ ix.db.projection.turnItems.rows, row.id = id ∧ row.threadId = threadId

/-- Nothing of `after` mentions the thread, or a run or an item that it had in `ix`. -/
structure Erased (after : Indexed) (sequence : Nat) : Prop where
  thread : ∀ thread ∈ after.db.projection.threads.rows, thread.id ≠ threadId
  runs : ∀ run ∈ after.db.projection.runs.rows, run.threadId ≠ threadId ∧ ¬ix.OwnsRun threadId run.id ∧
    ∀ item ∈ run.userItemId, ¬ix.OwnsItem threadId item
  items : ∀ row ∈ after.db.projection.turnItems.rows, row.threadId ≠ threadId ∧ ¬ix.OwnsItem threadId row.id ∧
    (∀ run ∈ row.runId, ¬ix.OwnsRun threadId run) ∧ row.body.threadId ≠ threadId ∧
    ∀ run ∈ row.body.runId, ¬ix.OwnsRun threadId run
  requests : ∀ row ∈ after.db.projection.runtimeRequests.rows, row.body.threadId ≠ threadId ∧
    ∀ run ∈ row.body.runId, ¬ix.OwnsRun threadId run
  queue : ∀ message ∈ after.db.projection.queuedMessages.rows, message.threadId ≠ threadId
  offsets : ∀ offset ∈ after.db.offsets.rows, offset.threadId ≠ threadId
  checkpoints : ∀ row ∈ after.db.projection.runCheckpoints.rows, row.threadId ≠ threadId ∧
    ¬ix.OwnsRun threadId row.runId
  patches : ∀ row ∈ after.db.patches.rows, ¬ix.OwnsRun threadId row.runId
  search : ∀ entry ∈ after.search.entries, ¬ix.OwnsItem threadId entry.key
  events : ∀ event ∈ after.db.events, event.threadId = some threadId → sequence ≤ event.sequence

/-- What belongs to other threads and to projects is there in `after` as it was. -/
structure Untouched (after : Indexed) : Prop where
  projects : after.db.projection.projects = ix.db.projection.projects
  threads : ∀ thread : ServerThread, thread.id ≠ threadId →
    (thread ∈ after.db.projection.threads.rows ↔ thread ∈ ix.db.projection.threads.rows)
  runs : ∀ run, run.threadId ≠ threadId → (run ∈ after.db.projection.runs.rows ↔ run ∈ ix.db.projection.runs.rows)
  items : ∀ row, row.threadId ≠ threadId →
    (row ∈ after.db.projection.turnItems.rows ↔ row ∈ ix.db.projection.turnItems.rows)
  requests : ∀ row : RequestRow, row.body.threadId ≠ threadId →
    (row ∈ after.db.projection.runtimeRequests.rows ↔ row ∈ ix.db.projection.runtimeRequests.rows)
  queue : ∀ message, message.threadId ≠ threadId →
    (message ∈ after.db.projection.queuedMessages.rows ↔ message ∈ ix.db.projection.queuedMessages.rows)
  offsets : ∀ offset, offset.threadId ≠ threadId → (offset ∈ after.db.offsets.rows ↔ offset ∈ ix.db.offsets.rows)
  checkpoints : ∀ row, row.threadId ≠ threadId →
    (row ∈ after.db.projection.runCheckpoints.rows ↔ row ∈ ix.db.projection.runCheckpoints.rows)
  patches : ∀ row, ¬ix.OwnsRun threadId row.runId → (row ∈ after.db.patches.rows ↔ row ∈ ix.db.patches.rows)
  search : ∀ entry, ¬ix.OwnsItem threadId entry.key → (entry ∈ after.search.entries ↔ entry ∈ ix.search.entries)
  events : ∀ event, event.threadId ≠ some threadId → (event ∈ after.db.events ↔ event ∈ ix.db.events)

/-- No row of another thread names a run or an item of this one. -/
structure Apart : Prop where
  runs : ∀ run ∈ ix.db.projection.runs.rows, run.threadId ≠ threadId →
    ∀ item ∈ run.userItemId, ¬ix.OwnsItem threadId item
  items : ∀ row ∈ ix.db.projection.turnItems.rows, row.threadId ≠ threadId →
    (∀ run ∈ row.runId, ¬ix.OwnsRun threadId run) ∧ row.body.threadId ≠ threadId ∧
      ∀ run ∈ row.body.runId, ¬ix.OwnsRun threadId run
  requests : ∀ row ∈ ix.db.projection.runtimeRequests.rows, row.body.threadId ≠ threadId →
    ∀ run ∈ row.body.runId, ¬ix.OwnsRun threadId run
  checkpoints : ∀ row ∈ ix.db.projection.runCheckpoints.rows, row.threadId ≠ threadId →
    ¬ix.OwnsRun threadId row.runId

end Statement

/-! ### What every store keeps -/

/-- The index goes with the items, and a checkpoint or a patch has its run. -/
structure Kept (ix : Indexed) : Prop where
  search : ix.search.Sound
  keys : ∀ id, ix.search.rowids.has id = ix.db.projection.turnItems.has id
  checkpoints : ix.db.projection.CheckpointRuns
  patches : ∀ row ∈ ix.db.patches.rows, ix.db.projection.runs.has row.runId = true

theorem Kept.new : new.Kept where
  search := .empty
  keys _ := rfl
  checkpoints := .empty
  patches row hrow := by cases hrow

variable {textOf : TurnItemBody → String} {ix : Indexed}

variable {db : Db}

theorem Kept.moved (h : ix.Kept) (hcheckpoints : db.projection.CheckpointRuns)
    (hpatches : ∀ row ∈ db.patches.rows, db.projection.runs.has row.runId = true) : (ix.moved textOf db).Kept := by
  obtain ⟨hsound, hkeys⟩ := h.search.follow h.keys
  exact ⟨hsound, hkeys, hcheckpoints, hpatches⟩

/-! ### Every batch and every prune keeps it -/

theorem Kept.insertEvent (h : ix.Kept) (event : StoredEvent) : Kept { ix with db := ix.db.insertEvent event } :=
  ⟨h.search, h.keys, h.checkpoints, h.patches⟩

variable {event : StoredEvent}

theorem Kept.applyEvent (h : ix.Kept) (happ : ix.db.applyEvent event = .ok db) :
    db.projection.CheckpointRuns ∧ ∀ row ∈ db.patches.rows, db.projection.runs.has row.runId = true := by
  obtain ⟨p, hp, hrest⟩ := Except.bind_eq_ok.mp happ
  have hcheckpoints := h.checkpoints.applyEvent hp
  have hstay : event.payload.type ≠ .threadDeleted → ∀ id, ix.db.projection.runs.has id = true →
      p.runs.has id = true := by
    intro hnot id hhas
    cases Projection.runsChange_of_applyEvent hp with
    | same hruns => rwa [hruns]
    | started run _ hinsert =>
      rw [Table.has, Table.find?_insert? hinsert]
      split_ifs
      · rfl
      · exact hhas
    | ended run status completedAt _ _ hruns =>
      rw [hruns, Table.has, Table.find?_set]
      split_ifs
      · rfl
      · exact hhas
    | updated run update _ _ _ hruns =>
      rw [hruns, Table.has, Table.find?_set]
      split_ifs
      · rfl
      · exact hhas
    | deleted _ _ hpay => exact absurd hpay hnot
  split at hrest
  · cases hrest
    exact ⟨hcheckpoints, fun row hrow => (List.mem_filter.mp hrow).2⟩
  · next hnot =>
    cases hrest
    refine ⟨hcheckpoints, fun row hrow => hstay (fun htype => ?_) _ (h.patches row hrow)⟩
    cases hpay : event.payload with
    | threadDeleted at_ => exact hnot at_ hpay
    | _ => rw [hpay] at htype; cases htype

variable {options : AppendOptions} {ts : Int} {next : Indexed}

theorem Kept.writeDraft (h : ix.Kept) {raw : EventDraft}
    (hwrite : ix.writeDraft textOf options ts raw = .ok (next, event)) : next.Kept := by
  obtain ⟨⟨db, written⟩, hdb, hnext⟩ := Except.bind_eq_ok.mp hwrite
  cases hnext
  obtain ⟨-, happ⟩ := Db.writeDraft_eq_ok.mp hdb
  obtain ⟨hcheckpoints, hpatches⟩ := (h.insertEvent event).applyEvent happ
  exact h.moved hcheckpoints hpatches

variable {db' : Db} {written : List StoredEvent}

theorem writeReceipt_shape (h : db.writeReceipt options ts written = .ok db') :
    ∃ receipts, db' = { db with receipts } := by
  unfold Db.writeReceipt at h
  split at h
  · cases h
    exact ⟨_, rfl⟩
  · cases h
  · dsimp only at h
    split at h
    · cases h
    · cases h
      exact ⟨_, rfl⟩

theorem setOffset_shape {offset : JournalOffset} (h : db.setOffset offset = .ok db') :
    ∃ offsets, db' = { db with offsets } := by
  unfold Db.setOffset at h
  split_ifs at h
  cases h
  exact ⟨_, rfl⟩

theorem Kept.insertPatches (h : ix.Kept) (patches : Option (String × List CheckpointPatchRow)) :
    Kept { ix with db := ix.db.insertPatches patches } := by
  unfold Db.insertPatches
  split
  · exact h
  · next runId rows =>
    split_ifs with hrun
    · refine ⟨h.search, h.keys, h.checkpoints, ?_⟩
      refine List.foldlRecOn rows (motive := fun t : Table CheckpointPatchRow.key =>
        ∀ row ∈ t.rows, ix.db.projection.runs.has row.runId = true) _ h.patches fun t ht row _ other hother => ?_
      cases hinsert : t.insert? { row with runId } with
      | none =>
        rw [hinsert] at hother
        exact ht other hother
      | some t' =>
        rw [hinsert, Option.getD_some, Table.rows_of_insert? hinsert] at hother
        obtain hold | hnew := List.mem_append.mp hother
        · exact ht other hold
        · rw [List.mem_singleton.mp hnew]
          exact hrun
    · exact h

theorem Kept.append (h : ix.Kept) {batch : Batch} (happ : ix.append textOf batch = .ok (next, written)) :
    next.Kept := by
  obtain ⟨⟨m, out⟩, hm, happ⟩ := Except.bind_eq_ok.mp happ
  obtain ⟨db₁, h₁, happ⟩ := Except.bind_eq_ok.mp happ
  obtain ⟨db₂, h₂, happ⟩ := Except.bind_eq_ok.mp happ
  cases happ
  have hdrafts : m.Kept := Fold.traceM_invariant (P := fun ix _ => Kept ix)
    (fun _ _ _ _ _ hkept _ hwrite => hkept.writeDraft hwrite) (w := []) h
      (Fold.along_of_forall fun _ _ _ => trivial) hm
  obtain ⟨receipts, rfl⟩ := writeReceipt_shape h₁
  have hreceipts : Kept { m with db := { m.db with receipts } } :=
    ⟨hdrafts.search, hdrafts.keys, hdrafts.checkpoints, hdrafts.patches⟩
  have hoffsets : Kept { m with db := db₂ } := by
    refine Fold.foldlM_invariant (P := fun db => Kept { m with db })
      (fun db offset db' hkept hstep => ?_) hreceipts h₂
    obtain ⟨offsets, rfl⟩ := setOffset_shape hstep
    exact ⟨hkept.search, hkept.keys, hkept.checkpoints, hkept.patches⟩
  exact hoffsets.insertPatches batch.options.checkpointPatches

theorem Kept.prune (h : ix.Kept) (at_ : Int) : (ix.moved textOf (ix.db.prune at_).1).Kept := by
  refine h.moved ?_ fun row hrow => (List.mem_filter.mp hrow).2
  have hitems : (ix.db.projection.crowded.foldl Projection.pruneItems ix.db.projection).CheckpointRuns := by
    rw [Projection.foldl_pruneItems_eq]
    exact h.checkpoints
  refine List.foldlRecOn _ _ hitems fun p _ threadId _ row hrow => ?_
  exact (Bool.and_eq_true_iff.mp (List.mem_filter.mp hrow).2).2

theorem kept_of_run {C : Indexed → StoreOp → Prop} (hrun : Runs.Run (fun ix => ix.step textOf) C new ix) :
      ix.Kept := by
  refine hrun.invariant (P := Kept) (fun ix op next hkept _ hstep => ?_) .new
  cases op with
  | append batch =>
    cases hstep
    unfold commit
    cases happ : ix.append textOf batch with
    | ok r => exact hkept.append happ
    | error e => exact hkept
  | prune at_ =>
    cases hstep
    exact hkept.prune at_

/-! ### The deletion -/

variable {threadId : String} {at_ ts : Int} {commandId : Option String} {receipt : Option (String × Option String)}
  {after : Indexed} {written : List StoredEvent}

theorem delete_spec (h : ix.append textOf (deleteBatch threadId at_ commandId receipt ts) = .ok (after, written)) :
    ∃ event : StoredEvent, event.sequence = ix.db.seq + 1 ∧ event.threadId = some threadId ∧
      after.db.projection = ix.db.projection.deleteThread threadId ∧
      after.db.events = (ix.db.events ++ [event]).filter (fun e =>
        !(e.threadId = some threadId && e.sequence < ix.db.seq + 1)) ∧
      after.db.offsets = ix.db.offsets.filter (fun o => some o.threadId ≠ some threadId) ∧
      after.db.patches = ix.db.patches.filter (fun r => (ix.db.projection.deleteThread threadId).runs.has r.runId) ∧
      after.search = ix.search.follow (searchText textOf) rewritten ix.db.projection.turnItems
        (ix.db.projection.deleteThread threadId).turnItems := by
  obtain ⟨⟨m, out⟩, hm, h⟩ := Except.bind_eq_ok.mp h
  obtain ⟨db₁, h₁, h⟩ := Except.bind_eq_ok.mp h
  obtain ⟨db₂, h₂, h⟩ := Except.bind_eq_ok.mp h
  cases h
  obtain ⟨m', event, outs, hwrite, hnil, -⟩ := Fold.traceM_cons_eq_ok.mp hm
  cases hnil
  obtain ⟨⟨db, event'⟩, hdb, hmoved⟩ := Except.bind_eq_ok.mp hwrite
  cases hmoved
  obtain ⟨hevent, happ⟩ := Db.writeDraft_eq_ok.mp hdb
  have hpay : event.payload = .threadDeleted at_ := by
    rw [hevent, Db.payload_stamp_of_type_ne (by simp [Payload.type])]
  have hid : event.threadId = some threadId := by rw [hevent, Db.threadId_stamp]
  have hsequence : event.sequence = ix.db.seq + 1 := by rw [hevent]; rfl
  obtain ⟨p, hp, hrest⟩ := Except.bind_eq_ok.mp happ
  have hdeleted : p = ix.db.projection.deleteThread threadId := by
    cases Projection.runsChange_of_applyEvent hp with
    | same _ htype => exact absurd (by simp [hpay, Payload.type]) htype
    | started _ hother => cases hpay.symm.trans hother
    | ended _ _ _ hother => cases hpay.symm.trans hother
    | updated _ _ hother => cases hpay.symm.trans hother
    | deleted other hother _ hp =>
      obtain rfl := Option.some.inj (hid.symm.trans hother)
      exact hp
  simp only [hpay] at hrest
  cases hrest
  obtain ⟨receipts, rfl⟩ := writeReceipt_shape h₁
  cases h₂
  refine ⟨event.toJson, hsequence, hid, hdeleted, ?_, ?_, ?_, ?_⟩
  · rw [← hsequence, ← hid]
    rfl
  · rw [← hid]
    rfl
  · rw [← hdeleted]
    rfl
  · rw [← hdeleted]
    rfl

theorem not_ownsRun {run : Run} (hrun : run ∈ ix.db.projection.runs.rows) (hthread : run.threadId ≠ threadId) :
    ¬ix.OwnsRun threadId run.id := by
  rintro ⟨other, hother, hid, howner⟩
  exact hthread (ix.db.projection.runs.eq_of_key_eq hother hrun hid ▸ howner)

theorem not_ownsItem {row : TurnItemRow} (hrow : row ∈ ix.db.projection.turnItems.rows)
    (hthread : row.threadId ≠ threadId) : ¬ix.OwnsItem threadId row.id := by
  rintro ⟨other, hother, hid, howner⟩
  exact hthread (ix.db.projection.turnItems.eq_of_key_eq hother hrow hid ▸ howner)

theorem has_runs_deleteThread {id : String} : (ix.db.projection.deleteThread threadId).runs.has id = true ↔
    ix.db.projection.runs.has id = true ∧ ¬ix.OwnsRun threadId id := by
  simp only [Projection.deleteThread, Table.has_iff, Table.rows_filter, List.mem_filter, decide_eq_true_eq]
  constructor
  · rintro ⟨run, ⟨hrun, hthread⟩, rfl⟩
    exact ⟨⟨run, hrun, rfl⟩, not_ownsRun hrun hthread⟩
  · rintro ⟨⟨run, hrun, rfl⟩, howns⟩
    exact ⟨run, ⟨hrun, fun hthread => howns ⟨run, hrun, rfl, hthread⟩⟩, rfl⟩

theorem mem_search_delete (h : ix.Kept) {entry : RowIndex.Entry String String} :
    entry ∈ (ix.search.follow (searchText textOf) rewritten ix.db.projection.turnItems
      (ix.db.projection.deleteThread threadId).turnItems).entries ↔
        entry ∈ ix.search.entries ∧ ¬ix.OwnsItem threadId entry.key := by
  rw [Projection.deleteThread, h.search.mem_follow_filter h.keys fun row => by simp [rewritten]]
  refine and_congr_right fun hentry => ?_
  have hhas : ix.db.projection.turnItems.has entry.key = true := by
    rw [← h.keys]
    exact Table.has_iff.mpr ⟨_, h.search.entries entry hentry, rfl⟩
  obtain ⟨row, hrow, hkey⟩ := Table.has_iff.mp hhas
  simp only [Table.has_iff, Table.rows_filter, List.mem_filter, decide_eq_true_eq]
  constructor
  · rintro ⟨other, ⟨hother, hthread⟩, hid⟩
    exact hid ▸ not_ownsItem hother hthread
  · exact fun howns => ⟨row, ⟨hrow, fun hthread => howns ⟨row, hrow, hkey, hthread⟩⟩, hkey⟩

theorem apart_of_erased {sequence : Nat} (herased : ix.Erased threadId after sequence) (huntouched :
      ix.Untouched threadId after) :
    ix.Apart threadId where
  runs run hrun hthread := (herased.runs run ((huntouched.runs run hthread).mpr hrun)).2.2
  items row hrow hthread := (herased.items row ((huntouched.items row hthread).mpr hrow)).2.2
  requests row hrow hthread := (herased.requests row ((huntouched.requests row hthread).mpr hrow)).2
  checkpoints row hrow hthread := (herased.checkpoints row ((huntouched.checkpoints row hthread).mpr hrow)).2

section Deletion

variable (hkept : ix.Kept)
  (h : ix.append textOf (deleteBatch threadId at_ commandId receipt ts) = .ok (after, written))

include hkept h

theorem erased_of_apart (hapart : ix.Apart threadId) : ix.Erased threadId after (ix.db.seq + 1) := by
  obtain ⟨event, -, -, hprojection, hevents, hoffsets, hpatches, hsearch⟩ := delete_spec h
  constructor
  · rw [hprojection]
    exact fun thread hthread => of_decide_eq_true (List.mem_filter.mp hthread).2
  · rw [hprojection]
    intro run hrun
    obtain ⟨hrun, hthread⟩ := List.mem_filter.mp hrun
    rw [decide_eq_true_eq] at hthread
    exact ⟨hthread, not_ownsRun hrun hthread, hapart.runs run hrun hthread⟩
  · rw [hprojection]
    intro row hrow
    obtain ⟨hrow, hthread⟩ := List.mem_filter.mp hrow
    rw [decide_eq_true_eq] at hthread
    exact ⟨hthread, not_ownsItem hrow hthread, hapart.items row hrow hthread⟩
  · rw [hprojection]
    intro row hrow
    obtain ⟨hrow, hthread⟩ := List.mem_filter.mp hrow
    rw [decide_eq_true_eq] at hthread
    exact ⟨hthread, hapart.requests row hrow hthread⟩
  · rw [hprojection]
    exact fun message hmessage => of_decide_eq_true (List.mem_filter.mp hmessage).2
  · rw [hoffsets]
    intro offset hoffset hthread
    exact of_decide_eq_true (List.mem_filter.mp hoffset).2 (congrArg some hthread)
  · rw [hprojection]
    intro row hrow
    obtain ⟨hrow, hleft⟩ := List.mem_filter.mp hrow
    obtain ⟨hthread, hrun⟩ := Bool.and_eq_true_iff.mp hleft
    exact ⟨of_decide_eq_true hthread, (has_runs_deleteThread.mp hrun).2⟩
  · rw [hpatches]
    exact fun row hrow => (has_runs_deleteThread.mp (List.mem_filter.mp hrow).2).2
  · rw [hsearch]
    exact fun entry hentry => ((mem_search_delete hkept).mp hentry).2
  · rw [hevents]
    intro e he hthread
    have hleft := (List.mem_filter.mp he).2
    simpa [hthread] using hleft

theorem untouched_of_apart (hapart : ix.Apart threadId) : ix.Untouched threadId after := by
  obtain ⟨event, -, hid, hprojection, hevents, hoffsets, hpatches, hsearch⟩ := delete_spec h
  constructor
  · rw [hprojection]
    rfl
  · rw [hprojection]
    exact fun thread hthread => List.mem_filter.trans (and_iff_left (decide_eq_true hthread))
  · rw [hprojection]
    exact fun run hthread => List.mem_filter.trans (and_iff_left (decide_eq_true hthread))
  · rw [hprojection]
    exact fun row hthread => List.mem_filter.trans (and_iff_left (decide_eq_true hthread))
  · rw [hprojection]
    exact fun row hthread => List.mem_filter.trans (and_iff_left (decide_eq_true hthread))
  · rw [hprojection]
    exact fun message hthread => List.mem_filter.trans (and_iff_left (decide_eq_true hthread))
  · rw [hoffsets]
    exact fun offset hthread =>
      List.mem_filter.trans (and_iff_left (decide_eq_true fun hsame => hthread (Option.some.inj hsame)))
  · rw [hprojection]
    intro row hthread
    refine List.mem_filter.trans (and_iff_left_of_imp fun hrow => ?_)
    exact Bool.and_eq_true_iff.mpr ⟨decide_eq_true hthread,
      has_runs_deleteThread.mpr ⟨hkept.checkpoints row hrow, hapart.checkpoints row hrow hthread⟩⟩
  · rw [hpatches]
    intro row hrun
    exact List.mem_filter.trans (and_iff_left_of_imp fun hrow => has_runs_deleteThread.mpr ⟨hkept.patches row hrow,
      hrun⟩)
  · rw [hsearch]
    exact fun entry hitem => (mem_search_delete hkept).trans (and_iff_left hitem)
  · rw [hevents]
    intro e hthread
    simp only [List.mem_filter, List.mem_append, List.mem_singleton, hthread, decide_false, Bool.false_and,
      Bool.not_false, and_true]
    exact or_iff_left fun hsame => hthread (hsame ▸ hid)

end Deletion

/-- In every store that batches and prunes lead to: a deletion that commits erases the thread, its runs and
its items and leaves what belongs to others as it was, exactly where no row of another thread names a run or
an item of the thread; a deletion that fails leaves the store as it was. -/
theorem delete_erases_iff (textOf : TurnItemBody → String)
    (hrun : Runs.Run (fun ix => ix.step textOf) (fun _ _ => True) new ix) (threadId : String) (at_ : Int)
    (commandId : Option String) (receipt : Option (String × Option String)) (ts : Int) :
    (∀ after written, ix.append textOf (deleteBatch threadId at_ commandId receipt ts) = .ok (after, written) →
      ix.commit textOf (deleteBatch threadId at_ commandId receipt ts) = after ∧
        (ix.Erased threadId after (ix.db.seq + 1) ∧ ix.Untouched threadId after ↔ ix.Apart threadId)) ∧
      ∀ e, ix.append textOf (deleteBatch threadId at_ commandId receipt ts) = .error e →
        ix.commit textOf (deleteBatch threadId at_ commandId receipt ts) = ix := by
  have hkept := kept_of_run hrun
  refine ⟨fun after written happ => ⟨by rw [commit, happ], fun hdone => ?_, fun hapart => ?_⟩, fun e happ => by
    rw [commit, happ]⟩
  · exact apart_of_erased hdone.1 hdone.2
  · exact ⟨erased_of_apart hkept happ hapart, untouched_of_apart hkept happ hapart⟩

private def twoThreads : List StoreOp :=
  [.append { drafts := [createProject (testProject "w1"), createThread (testThread "t1"),
    createThread (testThread "t2"),
    startRun "r1" 1, writeText "i1" (some "r1")], ts := 1 }]

/-- The journal ingest of the second thread finds the text in its own log, and writes it with the run it had. -/
private def movedText : EventDraft where
  threadId := some "t2"
  payload := .turnItemUpdated {
    id := "i1", threadId := "t2", runId := some "r1", ordinal := some 0, status := .completed, title := none
    startedAt := none, completedAt := none, createdAt := 1000, updatedAt := 2000
    body := .other .assistantMessage "\x7b\"text\":\"hello\"\x7d" }

/-- A thread with a run and a text goes, with its entry in the index. -/
theorem delete_erases_iff_own : ∃ ix after : Indexed, ix.search.entries ≠ [] ∧
    ix.Erased "t1" after (ix.db.seq + 1) ∧ ix.Untouched "t1" after := by
  let textOf : TurnItemBody → String := fun _ => "hello"
  let batch := deleteBatch "t1" 2 none none 2
  have hexec : (Runs.exec (fun ix => step textOf ix) (fun _ _ => True) new twoThreads).any (fun ix =>
      ix.search.entries ≠ [] && (ix.append textOf batch).toOption.isSome &&
        ix.db.projection.runs.rows.all (fun run => run.threadId = "t1" && run.userItemId = none) &&
        ix.db.projection.turnItems.rows.all (fun row => row.threadId = "t1") &&
        ix.db.projection.runtimeRequests.rows.isEmpty && ix.db.projection.runCheckpoints.rows.isEmpty) = true := by
    decide +kernel
  obtain ⟨ix, hrun, hix⟩ := Runs.exists_run_of_exec hexec
  simp only [Bool.and_eq_true, decide_eq_true_eq, List.all_eq_true, List.isEmpty_iff] at hix
  obtain ⟨⟨⟨⟨⟨hentries, hok⟩, hruns⟩, hitems⟩, hrequests⟩, hcheckpoints⟩ := hix
  obtain ⟨⟨after, written⟩, happ⟩ : ∃ r, ix.append textOf batch = .ok r := by
    cases h : ix.append textOf batch with
    | ok r => exact ⟨r, rfl⟩
    | error e => rw [h] at hok; cases hok
  have hapart : ix.Apart "t1" :=
    ⟨fun run hmem hne => absurd (hruns run hmem).1 hne, fun row hmem hne => absurd (hitems row hmem) hne,
      fun row hmem => (by rw [hrequests] at hmem; cases hmem),
      fun row hmem => (by rw [hcheckpoints] at hmem; cases hmem)⟩
  exact ⟨ix, after, hentries,
    (((delete_erases_iff textOf hrun "t1" 2 none none 2).1 after written happ).2).mpr hapart⟩

/-- The text of the first thread has moved to the second one with its run; the first thread is deleted, and the text
still names the run. -/
theorem delete_leaves_run : ∃ ix after : Indexed, ∃ written,
    Runs.Run (fun ix => step (fun _ => "hello") ix) (fun _ _ => True) new ix ∧
    ix.append (fun _ => "hello") (deleteBatch "t1" 4 none none 4) = .ok (after, written) ∧ ix.OwnsRun "t1" "r1" ∧
    (∃ row ∈ after.db.projection.turnItems.rows, row.threadId = "t2" ∧ row.runId = some "r1") ∧
    ¬ix.Erased "t1" after (ix.db.seq + 1) := by
  have hexec : (Runs.exec (fun ix => step (fun _ => "hello") ix) (fun _ _ => True) new
      (twoThreads ++ [.append { drafts := [movedText], ts := 2 },
        .append { drafts := [{ threadId := some "t1", payload := .threadArchived .paneClosed 3 }], ts := 3 }])).any
      (fun ix => ix.db.projection.runs.rows.any (fun run => run.id = "r1" && run.threadId = "t1") &&
        (ix.append (fun _ => "hello") (deleteBatch "t1" 4 none none 4)).toOption.any fun r =>
          r.1.db.projection.turnItems.rows.any fun row => row.threadId = "t2" && row.runId = some "r1") = true := by
    decide +kernel
  obtain ⟨ix, hrun, hix⟩ := Runs.exists_run_of_exec hexec
  simp only [Bool.and_eq_true, List.any_eq_true, decide_eq_true_eq] at hix
  obtain ⟨⟨run, hmem, hid, hthread⟩, hok⟩ := hix
  have howns : ix.OwnsRun "t1" "r1" := ⟨run, hmem, hid, hthread⟩
  cases happ : ix.append (fun _ => "hello") (deleteBatch "t1" 4 none none 4) with
  | error e => rw [happ] at hok; cases hok
  | ok r =>
    obtain ⟨after, written⟩ := r
    rw [happ] at hok
    obtain ⟨row, hrow, hmoved⟩ := List.any_eq_true.mp hok
    simp only [Bool.and_eq_true, decide_eq_true_eq] at hmoved
    exact ⟨ix, after, written, hrun, happ, howns, ⟨row, hrow, hmoved⟩, fun herased =>
      (herased.items row hrow).2.2.1 "r1" hmoved.2 howns⟩

end Indexed

end Sightr
