import Sightr.Store.Retain
import Sightr.Store.Threads

/-!
# Checkpoint rows over a store's life

A run has one row, which a `start` makes, an `end` finishes and an expiry marks, in any order and any number of
times. The run's `checkpoint` item is written from the row when the row is finished, and again when it expires.

An item of that id is nobody else's to write: every other item gets its id from a journal, a request, a screen or a
dispatch. A checkpoint names the thread of its run.
-/

namespace Sightr

open Keyed (Table)

namespace Projection

variable {p p' : Projection}

/-! ### Steps of the tables -/

inductive TableOp
  | event (event : StoredEvent)
  | prune (at_ : Int)

def step (p : Projection) : TableOp → Option Projection
  | .event event => (p.applyEvent event).toOption
  | .prune at_ => some (p.prune at_)

theorem step_event_eq_some {event : StoredEvent} : p.step (.event event) = some p' ↔ p.applyEvent event = .ok p' := by
  rw [step]
  cases p.applyEvent event <;> simp [Except.toOption]

def isCheckpointItemId (id : String) : Bool := "checkpoint:".toList.isPrefixOf id.toList

theorem isCheckpointItemId_self (runId : String) : isCheckpointItemId (checkpointItemId runId) = true := by
  rw [isCheckpointItemId, checkpointItemId, String.toList_append, List.isPrefixOf_iff_prefix]
  exact List.prefix_append _ _

theorem checkpointItemId_inj {a b : String} : checkpointItemId a = checkpointItemId b ↔ a = b := by
  refine ⟨fun h => ?_, congrArg _⟩
  have htexts := congrArg String.toList h
  rw [checkpointItemId, checkpointItemId, String.toList_append, String.toList_append] at htexts
  exact String.toList_inj.mp (List.append_cancel_left htexts)

/-- A captured checkpoint is one of its run's thread, and no other event carries a checkpoint's item. -/
def Apart (p : Projection) : TableOp → Prop
  | .event event =>
    match event.payload with
    | .checkpointCaptured c _ _ => ∀ run ∈ p.runs.find? c.runId, run.threadId = c.threadId
    | .turnItemUpdated item => isCheckpointItemId item.id = false
    | _ => True
  | .prune _ => True

instance (p : Projection) (op : TableOp) : Decidable (p.Apart op) := by
  unfold Apart
  cases op with
  | event event =>
    dsimp only
    generalize event.payload = payload
    apply @Payload.casesOn _ _ _ _ payload <;> intros <;> infer_instance
  | prune _ => infer_instance

/-! ### One event -/

def expiredRow (row : CheckpointDbRow) (ts : Int) : CheckpointDbRow := { row with objectsExpiredAt := some ts }

/-- What an event does to the checkpoints, their runs and their items. -/
inductive CheckpointsChange (p p' : Projection) (event : StoredEvent) : Prop
  | aside (rows : p'.runCheckpoints = p.runCheckpoints) (items : p'.turnItems = p.turnItems)
      (runs : ∀ id, ∀ run ∈ p.runs.find? id, ∃ next ∈ p'.runs.find? id, next.threadId = run.threadId)
  | item (row : TurnItemRow) (apart : p.Apart (.event event) → isCheckpointItemId row.id = false)
      (after : p' = { p with turnItems := p.turnItems.set row })
  | started (c : RunCheckpoint) (extra : CapturedExtra)
      (payload : event.payload = .checkpointCaptured c .start extra) (run : p.runs.has c.runId = true)
      (fresh : p.runCheckpoints.find? c.runId = none)
      (after : p' = { p with runCheckpoints := p.runCheckpoints.set (checkpointStartRow c extra event.ts) })
  | ended (c : RunCheckpoint) (extra : CapturedExtra)
      (payload : event.payload = .checkpointCaptured c .end extra) (run : p.runs.has c.runId = true)
      (unfinished : ∀ row ∈ p.runCheckpoints.find? c.runId, row.endAt = none)
      (after : p' = ({ p with
        runCheckpoints := p.runCheckpoints.set
          (checkpointEndRow (p.runCheckpoints.find? c.runId) c extra event.ts) } : Projection).upsertCheckpointItem
        (checkpointEndRow (p.runCheckpoints.find? c.runId) c extra event.ts) event.sequence event.ts)
  | expired (row : CheckpointDbRow) (payload : event.payload = .checkpointExpired row.runId)
      (found : p.runCheckpoints.find? row.runId = some row) (live : row.objectsExpiredAt = none)
      (after : p' = (if row.endAt.isSome && p.turnItems.has (checkpointItemId row.runId) then
          ({ p with runCheckpoints := p.runCheckpoints.set (expiredRow row event.ts) } :
            Projection).upsertCheckpointItem (expiredRow row event.ts) event.sequence event.ts
        else { p with runCheckpoints := p.runCheckpoints.set (expiredRow row event.ts) }))
  | deleted (threadId : String) (after : p' = p.deleteThread threadId)

theorem same_runs (h : p'.runs = p.runs) :
    ∀ id, ∀ run ∈ p.runs.find? id, ∃ next ∈ p'.runs.find? id, next.threadId = run.threadId :=
  fun _ run hrun => ⟨run, h ▸ hrun, rfl⟩

variable {runId : String}

theorem find?_set_run {run next : Run} (hfind : p.runs.find? run.id = some run) (hid : next.id = run.id)
    (hthread : next.threadId = run.threadId) (id : String) :
    ∀ old ∈ p.runs.find? id, ∃ new ∈ (p.runs.set next).find? id, new.threadId = old.threadId := by
  intro old hold
  simp only [Option.mem_def, Table.find?_set, hid]
  split_ifs with hsame
  · rw [← hsame, Option.mem_def, hfind] at hold
    exact ⟨next, rfl, hthread.trans (congrArg Run.threadId (Option.some.inj hold))⟩
  · exact ⟨old, hold, rfl⟩

theorem checkpointsChange_of_applyEvent {event : StoredEvent} (h : p.applyEvent event = .ok p') :
    p.CheckpointsChange p' event := by
  cases applied_of_applyEvent h with
  | threadDeleted => exact .deleted _ rfl
  | runStarted _ hinsert =>
    refine .aside rfl rfl fun id old hold => ⟨old, ?_, rfl⟩
    rw [Option.mem_def, Table.find?_insert? hinsert, if_neg]
    · exact hold
    · rintro rfl
      exact (Table.insert?_eq_some_iff.mp hinsert).1
        (List.mem_map.mpr ⟨old, Table.mem_of_find? hold, Table.key_of_find? hold⟩)
  | runEnded _ hfind | runUpdated _ _ hfind => exact .aside rfl rfl (find?_set_run hfind rfl rfl)
  | @turnItemUpdated item _ hpay =>
    refine .item _ (fun hapart => ?_) rfl
    have hother : isCheckpointItemId item.id = false := by simpa only [Apart, hpay] using hapart
    exact hother
  | @checkpointCaptured c _ extra _ _ hpay hcaptured =>
    rcases applyCheckpointCaptured_cases hcaptured with
      ⟨hp, -⟩ | ⟨rfl, hrun, hnone, hp⟩ | ⟨rfl, hrun, hopen, row, rfl, hp⟩
    · rw [hp]
      exact .aside rfl rfl (same_runs rfl)
    · exact .started c extra hpay hrun hnone hp
    · exact .ended c extra hpay hrun (fun row hrow => by simpa using hopen row hrow) hp
  | @checkpointExpired runId _ _ hpay hexpired =>
    rw [← hexpired]
    unfold applyCheckpointExpired
    split
    · exact .aside rfl rfl (same_runs rfl)
    · rename_i old hold
      obtain rfl := Table.key_of_find? hold
      split_ifs with hgone
      · exact .aside rfl rfl (same_runs rfl)
      · exact .expired old hpay hold (by simpa using hgone) rfl
  | _ => exact .aside rfl rfl (same_runs rfl)

/-! ### What a step keeps -/

structure ShowsRow (row : CheckpointDbRow) (item : TurnItemRow) : Prop where
  body : item.body.body = .checkpoint row.runId (checkpointFromRow row).files (checkpointFromRow row)
  title : item.body.title = some (checkpointTitle (checkpointFromRow row))
  run : item.body.runId = some row.runId
  times : item.body.startedAt = row.startAt ∧ item.body.completedAt = row.endAt
  finished : row.endAt.isSome = true

/-- A row is of its run's thread, and a checkpoint's item is that of a row and shows its record. -/
structure CheckpointLaw (p : Projection) : Prop where
  rows : ∀ row ∈ p.runCheckpoints.rows, ∃ run ∈ p.runs.find? row.runId, run.threadId = row.threadId
  items : ∀ runId, ∀ item ∈ p.turnItems.find? (checkpointItemId runId), ∃ row ∈ p.runCheckpoints.find? runId,
    item.threadId = row.threadId ∧ ShowsRow row item

/-- What a step does to the checkpoints of a store that keeps the law. -/
structure Finished (p : Projection) (op : TableOp) (p' : Projection) : Prop where
  /-- A row with an end is left as it is, but for the mark of an expiry. -/
  final : ∀ runId, ∀ row ∈ p.runCheckpoints.find? runId, row.endAt.isSome = true →
    ∀ row' ∈ p'.runCheckpoints.find? runId, row' = row ∨
      ∃ event, op = .event event ∧ event.payload = .checkpointExpired runId ∧ row.objectsExpiredAt = none ∧
        row' = expiredRow row event.ts
  expired : ∀ runId, ∀ row ∈ p.runCheckpoints.find? runId, row.objectsExpiredAt.isSome = true →
    ∀ row' ∈ p'.runCheckpoints.find? runId, row'.objectsExpiredAt = row.objectsExpiredAt
  /-- What a start recorded stays: the repository, the commit, its time, and that it was late. -/
  start : ∀ runId, ∀ row ∈ p.runCheckpoints.find? runId, ∀ row' ∈ p'.runCheckpoints.find? runId,
    (row.repoRoot ≠ "" → row'.repoRoot = row.repoRoot) ∧
      (row.startCommit.isSome = true → row'.startCommit = row.startCommit) ∧ row'.startAt = row.startAt ∧
      (row.approximate = true → row'.approximate = true)
  /-- Its item, where it is there, shows the record. -/
  item : ∀ runId, ∀ item ∈ p'.turnItems.find? (checkpointItemId runId), ∃ row ∈ p'.runCheckpoints.find? runId,
    ShowsRow row item
  stable : ∀ runId, ∀ item ∈ p.turnItems.find? (checkpointItemId runId),
    ∀ item' ∈ p'.turnItems.find? (checkpointItemId runId),
      item'.position = item.position ∧ item'.body.createdAt = item.body.createdAt
  /-- The item of a finished row that was pruned does not come back. -/
  gone : ∀ runId, ∀ row ∈ p.runCheckpoints.find? runId, row.endAt.isSome = true →
    p.turnItems.find? (checkpointItemId runId) = none → p'.turnItems.find? (checkpointItemId runId) = none

/-! ### Items -/

theorem upsertCheckpointItem_shows (p : Projection) {row : CheckpointDbRow} (sequence : Nat) (ts : Int)
    (hend : row.endAt.isSome = true) : ∃ itemRow : TurnItemRow, itemRow.id = checkpointItemId row.runId ∧
      p.upsertCheckpointItem row sequence ts = { p with turnItems := p.turnItems.set itemRow } ∧
      ShowsRow row itemRow ∧
      (∀ old ∈ p.turnItems.find? (checkpointItemId row.runId), itemRow.threadId = old.threadId ∧
        itemRow.position = old.position ∧ itemRow.body.createdAt = old.body.createdAt) ∧
      (p.turnItems.find? (checkpointItemId row.runId) = none → itemRow.threadId = row.threadId) := by
  unfold upsertCheckpointItem
  dsimp only
  cases hfind : p.turnItems.find? (checkpointItemId row.runId) with
  | none => exact ⟨_, rfl, rfl, ⟨rfl, rfl, rfl, ⟨rfl, rfl⟩, hend⟩, fun _ hold => (by cases hold), fun _ => rfl⟩
  | some found =>
    refine ⟨_, rfl, rfl, ⟨rfl, rfl, rfl, ⟨rfl, rfl⟩, hend⟩, fun old hold => ?_, fun hnone => (by cases hnone)⟩
    cases hold
    exact ⟨rfl, rfl, rfl⟩

section

variable (h : p.CheckpointLaw)
include h

private theorem CheckpointLaw.write {q : Projection} {row : CheckpointDbRow} (sequence : Nat)
    (ts : Int) (hend : row.endAt.isSome = true)
    (hrun : ∃ run ∈ p.runs.find? row.runId, run.threadId = row.threadId)
    (hold : ∀ old ∈ p.runCheckpoints.find? row.runId, old.threadId = row.threadId)
    (hq : q = { p with runCheckpoints := p.runCheckpoints.set row }) :
    (q.upsertCheckpointItem row sequence ts).CheckpointLaw := by
  subst hq
  obtain ⟨itemRow, hid, hafter, hshows, hkeeps, hfresh⟩ := upsertCheckpointItem_shows
    ({ p with runCheckpoints := p.runCheckpoints.set row } : Projection) sequence ts hend
  rw [hafter]
  constructor
  · intro row' hrow'
    rcases Table.mem_set.mp hrow' with rfl | ⟨hmem, -⟩
    · exact hrun
    · exact h.rows row' hmem
  · intro runId item hitem
    rw [Option.mem_def, Table.find?_set, hid] at hitem
    split_ifs at hitem with hsame
    · cases hitem
      obtain rfl := checkpointItemId_inj.mp hsame
      refine ⟨row, Table.find?_set_self _ _, ?_, hshows⟩
      cases hfind : p.turnItems.find? (checkpointItemId row.runId) with
      | none => exact hfresh hfind
      | some old =>
        obtain ⟨oldRow, hmem, hthread, -⟩ := h.items _ old hfind
        rw [(hkeeps old hfind).1, hthread, hold oldRow hmem]
    · obtain ⟨row', hrow', hrest⟩ := h.items runId item hitem
      have hne : row.runId ≠ runId := fun heq => hsame (heq ▸ rfl)
      exact ⟨row', by rw [Option.mem_def, Table.find?_set_of_ne _ hne]; exact hrow', hrest⟩

private theorem CheckpointLaw.set {row : CheckpointDbRow}
    (hrun : ∃ run ∈ p.runs.find? row.runId, run.threadId = row.threadId)
    (hnone : p.turnItems.find? (checkpointItemId row.runId) = none) :
    ({ p with runCheckpoints := p.runCheckpoints.set row } : Projection).CheckpointLaw := by
  constructor
  · intro row' hrow'
    rcases Table.mem_set.mp hrow' with rfl | ⟨hmem, -⟩
    · exact hrun
    · exact h.rows row' hmem
  · intro runId item hitem
    have hne : row.runId ≠ runId := by
      rintro rfl
      rw [Option.mem_def, hnone] at hitem
      cases hitem
    obtain ⟨row', hrow', hrest⟩ := h.items runId item hitem
    exact ⟨row', by rw [Option.mem_def, Table.find?_set_of_ne _ hne]; exact hrow', hrest⟩

theorem CheckpointLaw.item_eq_none (hopen : ∀ row ∈ p.runCheckpoints.find? runId, row.endAt = none) :
    p.turnItems.find? (checkpointItemId runId) = none := by
  refine Option.eq_none_iff_forall_not_mem.mpr fun item hitem => ?_
  obtain ⟨row, hrow, -, hshows⟩ := h.items runId item hitem
  have hend := hshows.finished
  rw [hopen row hrow] at hend
  cases hend

end

variable {κ ρ : Type*} {key : ρ → κ} {t : Table key} {k : κ} {r : ρ}

theorem mem_find?_of_filter [DecidableEq κ] {keep : ρ → Bool} (h : r ∈ (t.filter keep).find? k) :
    r ∈ t.find? k ∧ keep r = true :=
  Option.filter_eq_some_iff.mp (Table.find?_filter t keep k ▸ h)

theorem CheckpointLaw.fewerItems (h : p.CheckpointLaw) (keep : TurnItemRow → Bool) :
    ({ p with turnItems := p.turnItems.filter keep } : Projection).CheckpointLaw :=
  ⟨h.rows, fun runId item hitem => h.items runId item (mem_find?_of_filter hitem).1⟩

private theorem CheckpointLaw.deleteThread (h : p.CheckpointLaw) (threadId : String) :
    (p.deleteThread threadId).CheckpointLaw := by
  have hkeptRun {run : Run} {runId : String} (hrun : p.runs.find? runId = some run) (hthread :
      run.threadId ≠ threadId) :
      (p.deleteThread threadId).runs.find? runId = some run := by
    change (p.runs.filter _).find? runId = some run
    rw [Table.find?_filter, hrun, Option.filter_some_pos (by simpa using hthread)]
  constructor
  · intro row hrow
    obtain ⟨hmem, hkeep⟩ := List.mem_filter.mp hrow
    obtain ⟨run, hrun, hthread⟩ := h.rows row hmem
    have hne : row.threadId ≠ threadId := by simpa using (Bool.and_eq_true_iff.mp hkeep).1
    exact ⟨run, hkeptRun hrun (hthread ▸ hne), hthread⟩
  · intro runId item hitem
    obtain ⟨hold, hkeep⟩ := mem_find?_of_filter hitem
    obtain ⟨row, hrow, hthread, hshows⟩ := h.items runId item hold
    obtain ⟨run, hrun, hrunThread⟩ := h.rows row (Table.mem_of_find? hrow)
    have hne : row.threadId ≠ threadId := by
      rw [← hthread]
      simpa using hkeep
    refine ⟨row, ?_, hthread, hshows⟩
    change (p.runCheckpoints.filter _).find? runId = some row
    rw [Table.find?_filter, Option.mem_def.mp hrow, Option.filter_some_pos]
    have hhas := hkeptRun hrun (hrunThread ▸ hne)
    change (p.runs.filter _).find? _ = _ at hhas
    rw [Bool.and_eq_true_iff, Table.has, hhas]
    exact ⟨decide_eq_true hne, rfl⟩

/-! ### Deletions -/

private theorem CheckpointLaw.prune (h : p.CheckpointLaw) (at_ : Int) : (p.prune at_).CheckpointLaw := by
  refine List.foldlRecOn _ _ (List.foldlRecOn _ _ h fun q hq thread _ => ?_) fun q hq threadId _ => ?_
  · exact hq.fewerItems _
  · exact hq.deleteThread threadId

/-! ### What a step does to one run -/

inductive RowMoves (op : TableOp) (row : CheckpointDbRow) : CheckpointDbRow → Prop
  | kept : RowMoves op row row
  | ended {event : StoredEvent} (c : RunCheckpoint) (extra : CapturedExtra) (unfinished : row.endAt = none) :
      RowMoves op row (checkpointEndRow (some row) c extra event.ts)
  | expired {event : StoredEvent} (hop : op = .event event) (payload : event.payload = .checkpointExpired row.runId)
      (live : row.objectsExpiredAt = none) : RowMoves op row (expiredRow row event.ts)

/-- The rows move in these ways, the items of checkpoints stay in place, and one that is gone stays gone. -/
structure Moves (p : Projection) (op : TableOp) (p' : Projection) : Prop where
  rows : ∀ runId, ∀ row ∈ p.runCheckpoints.find? runId, ∀ row' ∈ p'.runCheckpoints.find? runId, RowMoves op row row'
  items : ∀ runId, ∀ item ∈ p.turnItems.find? (checkpointItemId runId),
    ∀ item' ∈ p'.turnItems.find? (checkpointItemId runId),
      item'.position = item.position ∧ item'.body.createdAt = item.body.createdAt
  gone : ∀ runId, ∀ row ∈ p.runCheckpoints.find? runId, row.endAt.isSome = true →
    p.turnItems.find? (checkpointItemId runId) = none → p'.turnItems.find? (checkpointItemId runId) = none

theorem find?_of_sublist [DecidableEq κ] {t' : Table key} (h : t'.rows.Sublist t.rows) (hr : r ∈ t'.find? k) :
    r ∈ t.find? k := by
  obtain rfl := Table.key_of_find? hr
  exact Table.find?_key (h.subset (Table.mem_of_find? hr))

variable {op : TableOp}

private theorem Moves.same (hrows : p'.runCheckpoints = p.runCheckpoints) (hitems : p'.turnItems = p.turnItems) :
    Moves p op p' := by
  refine ⟨fun runId row hrow row' hrow' => ?_, fun runId item hitem item' hitem' => ?_, fun _ _ _ _ hnone => ?_⟩
  · obtain rfl := Option.mem_unique hrow (hrows ▸ hrow')
    exact .kept
  · obtain rfl := Option.mem_unique hitem (hitems ▸ hitem')
    exact ⟨rfl, rfl⟩
  · rw [hitems]
    exact hnone

private theorem Shrinks.moves (h : Shrinks p p') : Moves p op p' := by
  refine ⟨fun runId row hrow row' hrow' => ?_, fun runId item hitem item' hitem' => ?_, fun runId _ _ _ hnone => ?_⟩
  · obtain rfl := Option.mem_unique hrow (find?_of_sublist h.runCheckpoints hrow')
    exact .kept
  · obtain rfl := Option.mem_unique hitem (find?_of_sublist h.turnItems hitem')
    exact ⟨rfl, rfl⟩
  · refine Option.eq_none_iff_forall_not_mem.mpr fun item hitem => ?_
    have hold := find?_of_sublist h.turnItems hitem
    rw [Option.mem_def, hnone] at hold
    cases hold

variable {row : CheckpointDbRow}

section

variable (hmoves : ∀ old ∈ p.runCheckpoints.find? row.runId, RowMoves op old row)
include hmoves

theorem rows_move : ∀ runId, ∀ old ∈ p.runCheckpoints.find? runId, ∀ row' ∈ (p.runCheckpoints.set row).find? runId,
      RowMoves op old row' := by
  intro runId old hold row' hrow'
  rw [Option.mem_def, Table.find?_set] at hrow'
  split_ifs at hrow' with hsame
  · cases hrow'
    exact hmoves old (hsame ▸ hold)
  · obtain rfl := Option.mem_unique hold hrow'
    exact .kept

private theorem Moves.set : Moves p op { p with runCheckpoints := p.runCheckpoints.set row } := by
  refine ⟨rows_move hmoves, fun runId item hitem item' hitem' => ?_, fun _ _ _ _ hnone => hnone⟩
  obtain rfl := Option.mem_unique hitem hitem'
  exact ⟨rfl, rfl⟩

end

private theorem Moves.write (sequence : Nat) (ts : Int) (hend : row.endAt.isSome = true)
    (hmoves : ∀ old ∈ p.runCheckpoints.find? row.runId, RowMoves op old row)
    (hitem : ∀ old ∈ p.runCheckpoints.find? row.runId, old.endAt.isSome = true →
      p.turnItems.find? (checkpointItemId row.runId) ≠ none) :
    Moves p op (({ p with runCheckpoints := p.runCheckpoints.set row } : Projection).upsertCheckpointItem row
      sequence ts) := by
  obtain ⟨itemRow, hid, hafter, -, hkeeps, -⟩ := upsertCheckpointItem_shows
    ({ p with runCheckpoints := p.runCheckpoints.set row } : Projection) sequence ts hend
  rw [hafter]
  refine ⟨rows_move hmoves, fun runId item hold item' hitem' => ?_, fun runId old hold hfinished hnone => ?_⟩
  · rw [Option.mem_def, Table.find?_set, hid] at hitem'
    split_ifs at hitem' with hsame
    · cases hitem'
      exact (hkeeps item (hsame ▸ hold)).2
    · obtain rfl := Option.mem_unique hold hitem'
      exact ⟨rfl, rfl⟩
  · have hne : itemRow.id ≠ checkpointItemId runId := by
      intro hsame
      obtain rfl := checkpointItemId_inj.mp (hid.symm.trans hsame)
      exact hitem old hold hfinished hnone
    exact (Table.find?_set_of_ne _ hne).trans hnone

/-! ### Steps -/

private theorem CheckpointLaw.event {event : StoredEvent} (h : p.CheckpointLaw) (hapart : p.Apart (.event event))
    (hchange : p.CheckpointsChange p' event) : p'.CheckpointLaw ∧ Moves p (.event event) p' := by
  cases hchange with
  | aside hrows hitems hruns =>
    refine ⟨⟨fun row hrow => ?_, fun runId item hitem => ?_⟩, .same hrows hitems⟩
    · obtain ⟨run, hrun, hthread⟩ := h.rows row (hrows ▸ hrow)
      obtain ⟨next, hnext, hkept⟩ := hruns _ run hrun
      exact ⟨next, hnext, hkept.trans hthread⟩
    · rw [hitems] at hitem
      rw [hrows]
      exact h.items runId item hitem
  | item row hother hafter =>
    subst hafter
    have hne (runId : String) : row.id ≠ checkpointItemId runId := by
      intro hid
      have hown := isCheckpointItemId_self runId
      rw [← hid, hother hapart] at hown
      cases hown
    have hsame (runId : String) : (p.turnItems.set row).find? (checkpointItemId runId) =
        p.turnItems.find? (checkpointItemId runId) := Table.find?_set_of_ne _ (hne runId)
    refine ⟨⟨h.rows, fun runId item hitem => h.items runId item (hsame runId ▸ hitem)⟩,
      fun runId old hold row' hrow' => ?_, fun runId item hitem item' hitem' => ?_, fun runId _ _ _ hnone => ?_⟩
    · obtain rfl := Option.mem_unique hold hrow'
      exact .kept
    · obtain rfl := Option.mem_unique hitem (hsame runId ▸ hitem')
      exact ⟨rfl, rfl⟩
    · exact (hsame runId).trans hnone
  | started c extra hpay hrun hfresh hafter =>
    subst hafter
    obtain ⟨run, hrun⟩ := Option.isSome_iff_exists.mp hrun
    have hthread : run.threadId = c.threadId := by
      simp only [Apart, hpay] at hapart
      exact hapart run hrun
    refine ⟨h.set ⟨run, hrun, hthread⟩ (h.item_eq_none fun row hrow => ?_), Moves.set fun old hold => ?_⟩
    · rw [Option.mem_def, show p.runCheckpoints.find? (checkpointStartRow c extra event.ts).runId = none from hfresh]
        at hrow
      cases hrow
    · rw [Option.mem_def, show p.runCheckpoints.find? (checkpointStartRow c extra event.ts).runId = none from hfresh]
        at hold
      cases hold
  | ended c extra hpay hrun hopen hafter =>
    subst hafter
    obtain ⟨run, hrun⟩ := Option.isSome_iff_exists.mp hrun
    have hthread : run.threadId = c.threadId := by
      simp only [Apart, hpay] at hapart
      exact hapart run hrun
    refine ⟨h.write _ _ rfl ⟨run, hrun, hthread⟩ (fun old hold => ?_) rfl, Moves.write _ _ rfl (fun old hold => ?_)
      fun old hold hend => ?_⟩
    · obtain ⟨run', hrun', hthread'⟩ := h.rows old (Table.mem_of_find? hold)
      rw [show old.runId = c.runId from Table.key_of_find? hold] at hrun'
      obtain rfl := Option.mem_unique hrun hrun'
      exact hthread'.symm.trans hthread
    · rw [show p.runCheckpoints.find? c.runId = some old from hold]
      exact .ended c extra (hopen old hold)
    · rw [hopen old hold] at hend
      cases hend
  | expired row hpay hfound hlive hafter =>
    have hrun := h.rows row (Table.mem_of_find? hfound)
    have hmoves : ∀ old ∈ p.runCheckpoints.find? (expiredRow row event.ts).runId,
        RowMoves (.event event) old (expiredRow row event.ts) := by
      intro old hold
      obtain rfl := Option.mem_unique (show row ∈ p.runCheckpoints.find? row.runId from hfound) hold
      exact .expired rfl hpay hlive
    split_ifs at hafter with hshown
    · subst hafter
      obtain ⟨hend, hitem⟩ := Bool.and_eq_true_iff.mp hshown
      refine ⟨h.write _ _ hend hrun (fun old hold => ?_) rfl, Moves.write _ _ hend hmoves fun _ _ _ hnone => ?_⟩
      · obtain rfl := Option.mem_unique (show row ∈ p.runCheckpoints.find? row.runId from hfound) hold
        rfl
      · rw [Table.has, show p.turnItems.find? (checkpointItemId row.runId) = none from hnone] at hitem
        cases hitem
    · subst hafter
      refine ⟨h.set hrun ?_, Moves.set hmoves⟩
      cases hitem : p.turnItems.find? (checkpointItemId row.runId) with
      | none => exact hitem
      | some item =>
        obtain ⟨row', hrow', -, hshows⟩ := h.items _ item hitem
        obtain rfl := Option.mem_unique (show row ∈ p.runCheckpoints.find? row.runId from hfound) hrow'
        exact absurd (by rw [hshows.finished, Table.has, hitem]; rfl) hshown
  | deleted threadId hafter =>
    subst hafter
    exact ⟨h.deleteThread threadId, (shrinks_deleteThread p threadId).moves⟩

private theorem CheckpointLaw.step (h : p.CheckpointLaw) (hapart : p.Apart op) (hstep : p.step op = some p') :
    p'.CheckpointLaw ∧ Moves p op p' := by
  cases op with
  | event event => exact h.event hapart (checkpointsChange_of_applyEvent (step_event_eq_some.mp hstep))
  | prune at_ =>
    cases hstep
    exact ⟨h.prune at_, (shrinks_prune p at_).moves⟩

private theorem CheckpointLaw.empty : empty.CheckpointLaw :=
  ⟨fun _ hrow => (by cases hrow), fun _ _ hitem => (by cases hitem)⟩

private theorem RowMoves.finished {row row' : CheckpointDbRow} (h : RowMoves op row row') :
    (row.endAt.isSome = true → row' = row ∨ ∃ event, op = .event event ∧
        event.payload = .checkpointExpired row.runId ∧ row.objectsExpiredAt = none ∧ row' = expiredRow row event.ts) ∧
      (row.objectsExpiredAt.isSome = true → row'.objectsExpiredAt = row.objectsExpiredAt) ∧
      (row.repoRoot ≠ "" → row'.repoRoot = row.repoRoot) ∧
      (row.startCommit.isSome = true → row'.startCommit = row.startCommit) ∧ row'.startAt = row.startAt ∧
      (row.approximate = true → row'.approximate = true) := by
  cases h with
  | kept => exact ⟨fun _ => .inl rfl, fun _ => rfl, fun _ => rfl, fun _ => rfl, rfl, id⟩
  | ended c extra hopen =>
    refine ⟨fun hend => ?_, fun _ => rfl, fun hroot => ?_, fun hcommit => ?_, rfl, fun happrox => ?_⟩
    · rw [hopen] at hend
      cases hend
    · simp [checkpointEndRow, orText, Option.filter, hroot]
    · obtain ⟨commit, hcommit⟩ := Option.isSome_iff_exists.mp hcommit
      simp [checkpointEndRow, hcommit]
    · simp [checkpointEndRow, happrox]
  | expired hop hpay hlive =>
    refine ⟨fun _ => .inr ⟨_, hop, hpay, hlive, rfl⟩, fun hgone => ?_, fun _ => rfl, fun _ => rfl, rfl, id⟩
    rw [hlive] at hgone
    cases hgone

theorem checkpointLaw_of_run (hrun : Runs.Run step Apart empty p) : p.CheckpointLaw :=
  hrun.invariant (P := CheckpointLaw) (fun _ _ _ hlaw hapart hstep => (hlaw.step hapart hstep).1) .empty

/-- In every order of events and prunes: a row with an end is final but for the mark of an expiry, which is set once;
what its start recorded stays; and its item, until a prune or its thread's deletion takes it, shows the row's record
in one place and with one time. -/
theorem checkpoint_final {op : TableOp} (hrun : Runs.Run step Apart empty p) (hapart : p.Apart op)
    (hstep : p.step op = some p') : Finished p op p' := by
  obtain ⟨hlaw, hmoves⟩ := (checkpointLaw_of_run hrun).step hapart hstep
  constructor
  case final =>
    intro runId row hrow hend row' hrow'
    obtain rfl := Table.key_of_find? hrow
    exact (hmoves.rows _ row hrow row' hrow').finished.1 hend
  case expired => exact fun runId row hrow hgone row' hrow' =>
      (hmoves.rows runId row hrow row' hrow').finished.2.1 hgone
  case start => exact fun runId row hrow row' hrow' => (hmoves.rows runId row hrow row' hrow').finished.2.2
  case item =>
    intro runId item hitem
    obtain ⟨row, hrow, -, hshows⟩ := hlaw.items runId item hitem
    exact ⟨row, hrow, hshows⟩
  case stable => exact hmoves.items
  case gone => exact hmoves.gone

/-! ### Cases -/

private def storedOp (payload : ServerPayload) (threadId : Option String := some "t1") : TableOp :=
  .event { sequence := 1, threadId, payload, ts := 5 }

private def snapshotOf (threadId : String) : RunCheckpoint where
  runId := "r1"
  threadId := threadId
  appRunOrdinal := 1
  status := .ready
  files := []
  additions := 0
  deletions := 0

/-- A project, the threads `t1` and `t2`, and a run of the first. -/
private def openedRun : List TableOp :=
  [storedOp (createProject (testProject "w1")).payload, storedOp (.threadCreated (testThread "t1")),
    storedOp (.threadCreated (testThread "t2")) (some "t2"), storedOp (startRun "r1" 1).payload]

private def capturedRun : List TableOp :=
  openedRun ++ [storedOp (.checkpointCaptured (snapshotOf "t1") .start { startCommit := some "c0" }),
    storedOp (.checkpointCaptured (snapshotOf "t1") .end { endCommit := some "c1" })]

theorem checkpoint_final_expired : ∃ p p', Runs.Run step Apart empty p ∧
    p.step (storedOp (.checkpointExpired "r1")) = some p' ∧ p.Apart (storedOp (.checkpointExpired "r1")) ∧
    (p'.runCheckpoints.find? "r1").any (·.objectsExpiredAt.isSome) = true ∧
    (p'.turnItems.has (checkpointItemId "r1")) = true ∧ Finished p (storedOp (.checkpointExpired "r1")) p' := by
  obtain ⟨p, hrun, hnext⟩ := Runs.exists_run_of_exec
    (p := fun p => (p.step (storedOp (.checkpointExpired "r1"))).any fun p' =>
      (p'.runCheckpoints.find? "r1").any (·.objectsExpiredAt.isSome) && p'.turnItems.has (checkpointItemId "r1"))
    (show (Runs.exec step Apart empty capturedRun).any _ = true by decide +kernel)
  obtain ⟨p', hstep, hshown⟩ := (Option.any_eq_true _ _).mp hnext
  obtain ⟨hmark, hitem⟩ := Bool.and_eq_true_iff.mp hshown
  exact ⟨p, p', hrun, hstep, trivial, hmark, hitem, checkpoint_final hrun trivial hstep⟩

/-- An item is stored under the checkpoint item's id: the item shows no record. -/
private def overwritingOp : TableOp := storedOp (writeText "checkpoint:r1" (some "r1") (some 0)).payload

/-- A run is captured for another thread, its own thread goes, and the run starts again in that other one. -/
private def strayRun : List TableOp :=
  openedRun ++ [storedOp (.checkpointCaptured (snapshotOf "t2") .end {}) (some "t2"), storedOp (.threadDeleted 4),
    storedOp (.runStarted { id := "r1", threadId := "t2", ordinal := 1, status := .running, startedAt := 9 })
      (some "t2")]

private def strayStart : TableOp := storedOp (.checkpointCaptured (snapshotOf "t2") .start {}) (some "t2")

private def showsNone (p : Projection) : Bool :=
  (p.turnItems.find? (checkpointItemId "r1")).any fun item =>
    item.body.body.type != .checkpoint || (p.runCheckpoints.find? "r1").all fun row => row.endAt.isNone

theorem not_finished_of_showsNone (h : p'.showsNone = true) : ¬Finished p op p' := by
  intro hfinished
  obtain ⟨item, hitem, hnone⟩ := (Option.any_eq_true _ _).mp h
  obtain ⟨row, hrow, hshows⟩ := hfinished.item "r1" item hitem
  rw [Option.mem_def.mp hrow, hshows.body] at hnone
  obtain ⟨at_, hend⟩ := Option.isSome_iff_exists.mp hshows.finished
  simp [hend, TurnItemBody.type] at hnone

/-- An item that another event stores under the id of a checkpoint's replaces its record, and a checkpoint of another
thread leaves an item behind that a later row of the run does not show. -/
theorem checkpoint_item_overwritten :
    (¬∀ p p' op, Runs.Run step (fun _ _ => True) empty p → p.step op = some p' → Finished p op p') ∧
      ∃ p p', Runs.Run step (fun _ _ => True) empty p ∧ p.step strayStart = some p' ∧ ¬Finished p strayStart p' := by
  constructor
  · intro h
    obtain ⟨p, hrun, hnext⟩ := Runs.exists_run_of_exec (p := fun p => (p.step overwritingOp).any showsNone)
      (show (Runs.exec step (fun _ _ => True) empty capturedRun).any _ = true by decide +kernel)
    obtain ⟨p', hstep, hnone⟩ := (Option.any_eq_true _ _).mp hnext
    exact not_finished_of_showsNone hnone (h p p' _ hrun hstep)
  · obtain ⟨p, hrun, hnext⟩ := Runs.exists_run_of_exec (p := fun p => (p.step strayStart).any showsNone)
      (show (Runs.exec step (fun _ _ => True) empty strayRun).any _ = true by decide +kernel)
    obtain ⟨p', hstep, hnone⟩ := (Option.any_eq_true _ _).mp hnext
    exact ⟨p, p', hrun, hstep, not_finished_of_showsNone hnone⟩

end Projection

end Sightr
