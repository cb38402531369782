import Mathlib.Data.List.Dedup
import Sightr.Lib.Runs
import Sightr.Store.Snapshot

/-!
# Pruning

`prune` of `bridge/threads/store.ts`, which runs at open and every hour: old events beyond the newest
`RETAIN_EVENTS_MIN` go, and so do old receipts, the lowest items of a crowded thread and threads that
have been archived for long. `minSequence` then records the lowest sequence that is left, and a cursor
from there on is answered by a replay.

Events are deleted by age as well as by rank. Where the clock stepped back, an event can be too young
to go while one after it goes; the lowest sequence left is then no floor of what was deleted.
-/

namespace Sightr

open Keyed (Table)

/-! ### Limits -/

def RETAIN_EVENTS_MS : Int := 7 * 24 * 60 * 60 * 1000

def RETAIN_EVENTS_MIN : Int := 50000

def RETAIN_RECEIPTS_MS : Int := 7 * 24 * 60 * 60 * 1000

def MAX_ITEMS_PER_THREAD : Nat := 5000

def RETAIN_ARCHIVED_MS : Int := 90 * 24 * 60 * 60 * 1000

/-- How many events, receipts, items and threads a prune deleted. -/
structure PruneResult where
  events : Nat
  receipts : Nat
  items : Nat
  threads : Nat
  deriving DecidableEq

/-! ### The projection's part -/

namespace Projection

variable (p : Projection)

/-- The threads with more than `MAX_ITEMS_PER_THREAD` items, and how many they have. -/
def crowded : List (String × Nat) :=
  ((p.turnItems.rows.map (·.threadId)).dedup.map fun threadId =>
    (threadId, (p.itemRows threadId).length)).filter (MAX_ITEMS_PER_THREAD < ·.2)

/-- The item belongs to no run, or to none that is still running. -/
def removable (row : TurnItemRow) : Bool := row.runId.all fun id => !(p.runs.find? id).any (·.status = .running)

/-- The `limit` lowest items of the thread that may go. -/
def oldestItems (threadId : String) (limit : Nat) : List TurnItemRow :=
  ((p.itemRows threadId).filter p.removable).take limit

/-- Delete what a crowded thread holds beyond `MAX_ITEMS_PER_THREAD`, oldest first. -/
def pruneItems (thread : String × Nat) : Projection :=
  let gone := (p.oldestItems thread.1 (thread.2 - MAX_ITEMS_PER_THREAD)).map (·.id)
  { p with turnItems := p.turnItems.filter (·.id ∉ gone) }

/-- The threads that were archived before `RETAIN_ARCHIVED_MS`. -/
def expiredThreads (at_ : Int) : List String :=
  (p.threads.rows.filter fun t =>
    t.shelf = .archived && t.archivedAt.any (· < at_ - RETAIN_ARCHIVED_MS)).map (·.id)

def prune (at_ : Int) : Projection := (p.expiredThreads at_).foldl deleteThread (p.crowded.foldl pruneItems p)

theorem foldl_pruneItems_eq (threads : List (String × Nat)) (p : Projection) : threads.foldl pruneItems p =
      { p with turnItems := (threads.foldl pruneItems p).turnItems } := by
  induction threads generalizing p with
  | nil => rfl
  | cons thread threads ih => exact ih (p.pruneItems thread)

theorem foldl_deleteThread_eq (gone : List String) (p : Projection) :
    (gone.foldl deleteThread p).threads = p.threads.filter (·.id ∉ gone) ∧
      (gone.foldl deleteThread p).turnItems = p.turnItems.filter (·.threadId ∉ gone) := by
  induction gone generalizing p with
  | nil =>
    constructor <;> refine Table.ext ?_ <;> simp
  | cons threadId gone ih =>
    obtain ⟨hthreads, hitems⟩ := ih (p.deleteThread threadId)
    rw [List.foldl_cons, hthreads, hitems]
    constructor <;> refine Table.ext ?_ <;>
      simp only [deleteThread, Table.rows_filter, List.filter_filter, List.mem_cons, not_or] <;>
      refine List.filter_congr fun row _ => ?_ <;> simp [Bool.and_comm]

variable {p : Projection}

variable {thread : String × Nat} {row : TurnItemRow}

theorem mem_pruneItems : row ∈ (p.pruneItems thread).turnItems.rows ↔ row ∈ p.turnItems.rows ∧
      row ∉ p.oldestItems thread.1 (thread.2 - MAX_ITEMS_PER_THREAD) := by
  simp only [pruneItems, Table.rows_filter, List.mem_filter, decide_eq_true_eq]
  refine and_congr_right fun hrow => not_congr ?_
  constructor
  · intro hid
    obtain ⟨other, hother, hid⟩ := List.mem_map.mp hid
    have hstored : other ∈ p.turnItems.rows := by
      have hmem := List.mem_of_mem_filter (List.mem_of_mem_take hother)
      simp only [itemRows, List.mem_insertionSort] at hmem
      exact List.mem_of_mem_filter hmem
    exact p.turnItems.eq_of_key_eq hstored hrow hid ▸ hother
  · exact List.mem_map_of_mem

variable {threadId : String}

theorem itemRows_pruneItems_of_ne (h : thread.1 ≠ threadId) :
    (p.pruneItems thread).itemRows threadId = p.itemRows threadId := by
  have hsame : (p.pruneItems thread).turnItems.rows.filter (·.threadId = threadId) =
      p.turnItems.rows.filter (·.threadId = threadId) := by
    rw [pruneItems, Table.rows_filter, List.filter_filter]
    refine List.filter_congr fun row hrow => ?_
    by_cases hthread : row.threadId = threadId
    · have hkept : row ∈ (p.pruneItems thread).turnItems.rows := by
        refine mem_pruneItems.mpr ⟨hrow, fun hold => h ?_⟩
        have hmem := List.mem_of_mem_filter (List.mem_of_mem_take hold)
        simp only [itemRows, List.mem_insertionSort, List.mem_filter, decide_eq_true_eq] at hmem
        exact hmem.2.symm.trans hthread
      rw [pruneItems, Table.rows_filter, List.mem_filter] at hkept
      rw [hkept.2, Bool.and_true]
    · simp [hthread]
  rw [itemRows, hsame, itemRows]

variable {threads : List (String × Nat)}

theorem itemRows_foldl_pruneItems_of_not_mem (h : threadId ∉ threads.map (·.1)) :
    (threads.foldl pruneItems p).itemRows threadId = p.itemRows threadId := by
  induction threads generalizing p with
  | nil => rfl
  | cons thread threads ih =>
    rw [List.map_cons, List.mem_cons, not_or] at h
    rw [List.foldl_cons, ih h.2, itemRows_pruneItems_of_ne (Ne.symm h.1)]

theorem crowded_split (h : threadId ∈ p.crowded.map (·.1)) :
    ∃ before after, p.crowded = before ++ (threadId, (p.itemRows threadId).length) :: after ∧
      threadId ∉ before.map (·.1) ∧ threadId ∉ after.map (·.1) ∧
      MAX_ITEMS_PER_THREAD < (p.itemRows threadId).length := by
  obtain ⟨⟨_, count⟩, hthread, rfl⟩ := List.mem_map.mp h
  obtain ⟨hmem, hover⟩ := List.mem_filter.mp hthread
  obtain ⟨_, -, hsame⟩ := List.mem_map.mp hmem
  obtain ⟨rfl, rfl⟩ := Prod.mk.inj hsame
  obtain ⟨before, after, hsplit⟩ := List.append_of_mem hthread
  have hnodup : (p.crowded.map (·.1)).Nodup := by
    refine List.Nodup.sublist (List.filter_sublist.map _) ?_
    rw [List.map_map]
    exact (List.map_id _).symm ▸ List.nodup_dedup _
  rw [hsplit, List.map_append, List.map_cons, List.nodup_middle, List.nodup_cons, List.mem_append, not_or] at hnodup
  exact ⟨before, after, hsplit, hnodup.1.1, hnodup.1.2, of_decide_eq_true hover⟩

theorem mem_of_mem_foldl_pruneItems (h : row ∈ (threads.foldl pruneItems p).turnItems.rows) :
    row ∈ p.turnItems.rows := by
  induction threads generalizing p with
  | nil => exact h
  | cons thread threads ih => exact (mem_pruneItems.mp (ih h)).1

theorem prune_subset (p : Projection) (at_ : Int) : (∀ threadId, (p.prune at_).threads.has threadId = true →
      p.threads.has threadId = true ∧ threadId ∉ p.expiredThreads at_) ∧
    ∀ row ∈ (p.prune at_).turnItems.rows, row ∈ p.turnItems.rows := by
  obtain ⟨hthreads, hitems⟩ := foldl_deleteThread_eq (p.expiredThreads at_) (p.crowded.foldl pruneItems p)
  constructor
  · intro threadId hhas
    rw [prune, hthreads, foldl_pruneItems_eq, Table.has, Table.find?_filter] at hhas
    cases hfind : p.threads.find? threadId with
    | none => simp [hfind] at hhas
    | some thread =>
      have hid : thread.id = threadId := Table.key_of_find? hfind
      refine ⟨by rw [Table.has, hfind]; rfl, fun hgone => ?_⟩
      simp [hfind, hid, hgone] at hhas
  · intro row hrow
    rw [prune, hitems] at hrow
    exact mem_of_mem_foldl_pruneItems (List.mem_of_mem_filter hrow)

end Projection

/-! ### One prune -/

namespace Db

/-- The event is too old to keep and not among the newest `RETAIN_EVENTS_MIN`. -/
def prunable (db : Db) (at_ : Int) (event : StoredEvent) : Bool :=
  decide (event.ts < at_ - RETAIN_EVENTS_MS) &&
    decide ((event.sequence : Int) ≤ db.lastSequence - RETAIN_EVENTS_MIN)

def keptEvents (db : Db) (at_ : Int) : List StoredEvent := db.events.filter fun event => !db.prunable at_ event

def oldestKept (db : Db) (at_ : Int) : Nat := ((db.keptEvents at_).map (·.sequence)).min?.getD (db.lastSequence + 1)

/-- Delete what is past its retention, in one transaction. -/
def prune (db : Db) (at_ : Int) : Db × PruneResult :=
  let events := (db.events.filter (db.prunable at_)).length
  let receipts := db.receipts.filter fun r => !decide (r.ts < at_ - RETAIN_RECEIPTS_MS)
  let items := db.projection.crowded.foldl Projection.pruneItems db.projection
  let gone := db.projection.expiredThreads at_
  let projection := db.projection.prune at_
  ({ db with
      projection
      events := db.keptEvents at_
      minSequence := if 0 < events ∨ 0 < db.minSequence then db.oldestKept at_ else db.minSequence
      receipts
      offsets := db.offsets.filter (·.threadId ∉ gone)
      patches := db.patches.filter fun r => projection.runs.has r.runId },
    { events
      receipts := db.receipts.rows.length - receipts.rows.length
      items := db.projection.turnItems.rows.length - items.turnItems.rows.length
      threads := gone.length })

end Db

/-! ### A store and what it ever wrote -/

inductive StoreOp
  | append (batch : Batch)
  | prune (at_ : Int)
  deriving DecidableEq

/-- A store and every event it ever wrote, oldest first. -/
structure Ledger where
  db : Db
  written : List StoredEvent
  deriving DecidableEq

namespace Ledger

def new : Ledger where
  db := .empty
  written := []

variable (l : Ledger)

def step : StoreOp → Option Ledger
  | .append batch =>
    match l.db.append batch with
    | .error _ => none
    | .ok (db, written) => some { db, written := l.written ++ written }
  | .prune at_ => some { l with db := (l.db.prune at_).1 }

/-- The event's thread was deleted at the event or after it. -/
def DeletedWithThread (event : StoredEvent) : Prop :=
  ∃ d ∈ l.written, d.payload.type = .threadDeleted ∧ d.threadId = event.threadId ∧ event.sequence ≤ d.sequence

/-- From every cursor the routes replay from, every event after it is found, but for those that were
deleted with their thread. -/
def Complete : Prop :=
  ∀ cursor, l.db.minSequence ≤ cursor → cursor ≤ l.db.lastSequence → ∀ o : Db.EventsAfterOptions, o.limit = none →
      ∀ event ∈ l.written, cursor < event.sequence → o.admits event = true →
        ¬ l.DeletedWithThread event → event.toJson.toWireEvent ∈ l.db.eventsAfter cursor o

/-- No event that stays has a smaller sequence than one that a prune deletes. -/
def FromBelow : StoreOp → Prop
  | .append _ => True
  | .prune at_ => ∀ event ∈ l.db.events, ∀ later ∈ l.db.events, event.sequence < later.sequence →
      l.db.prunable at_ later = true → l.db.prunable at_ event = true

instance (l : Ledger) (op : StoreOp) : Decidable (l.FromBelow op) :=
  match op with
  | .append _ => .isTrue trivial
  | .prune at_ => inferInstanceAs (Decidable (∀ event ∈ l.db.events, ∀ later ∈ l.db.events,
      event.sequence < later.sequence → l.db.prunable at_ later = true → l.db.prunable at_ event = true))

variable {l l' : Ledger}

theorem step_append_eq_some {batch : Batch} :
    l.step (.append batch) = some l' ↔ ∃ db written, l.db.append batch = .ok (db, written) ∧
      l' = ⟨db, l.written ++ written⟩ := by
  simp only [step]
  cases l.db.append batch with
  | error e => simp
  | ok r =>
    obtain ⟨db, written⟩ := r
    simp [@eq_comm _ l']

theorem ordered_of_run {C : Ledger → StoreOp → Prop} (h : Runs.Run step C new l) : l.db.Ordered := by
  refine h.invariant (P := fun l => l.db.Ordered) (fun l op l' hl _ hstep => ?_) .empty
  cases op with
  | append batch =>
    obtain ⟨db, written, happ, rfl⟩ := step_append_eq_some.mp hstep
    exact hl.append happ
  | prune at_ =>
    cases hstep
    exact hl.of_sublist List.filter_sublist rfl

/-! ### No gap -/

/-- What a run of prunes from below keeps: `minSequence` is a floor of the stored events, and every
event is stored, below the floor or deleted with its thread. -/
structure Floored (l : Ledger) : Prop where
  ordered : l.db.Ordered
  floor : ∀ event ∈ l.db.events, l.db.minSequence ≤ event.sequence
  floor_le : l.db.minSequence ≤ l.db.seq + 1
  kept : ∀ event ∈ l.written, event.toJson ∈ l.db.events ∨ event.sequence < l.db.minSequence ∨
    l.DeletedWithThread event

theorem Floored.new : new.Floored :=
  ⟨.empty, by simp [Ledger.new, Db.empty], by simp [Ledger.new, Db.empty],
    by simp [Ledger.new]⟩

theorem admits_toJson (o : Db.EventsAfterOptions) (event : StoredEvent) :
    o.admits event.toJson = o.admits event := by
  have htype : event.toJson.payload.type = event.payload.type := Payload.type_toJson event.payload
  unfold Db.EventsAfterOptions.admits
  rw [htype]
  rfl

private theorem Floored.complete (h : l.Floored) : l.Complete := by
  intro cursor hmin _ o hlimit event hevent hlt hadmits hdeleted
  have hstored : event.toJson ∈ l.db.events := by
    rcases h.kept event hevent with hstored | hbelow | hgone
    · exact hstored
    · omega
    · exact absurd hgone hdeleted
  have hadmits' : o.admits event.toJson = true := by rwa [admits_toJson]
  have hlt' : cursor < event.toJson.sequence := hlt
  refine List.mem_map.mpr ⟨event.toJson, ?_, rfl⟩
  simp only [Db.selectEvents, hlimit]
  exact List.mem_filter.mpr ⟨hstored, by rw [hadmits', decide_eq_true hlt']; rfl⟩

variable {event : StoredEvent}

private theorem DeletedWithThread.mono (h : l.DeletedWithThread event) (hwritten : l.written ⊆ l'.written) :
    l'.DeletedWithThread event := by
  obtain ⟨d, hd, hrest⟩ := h
  exact ⟨d, hwritten hd, hrest⟩

variable {db db' : Db}

theorem Floored.writeDraft {options : AppendOptions} {ts : Int} {sofar : List StoredEvent} {raw : EventDraft}
    (h : Floored ⟨db, sofar⟩) (hwrite : Db.writeDraft options ts db raw = .ok (db', event)) :
    Floored ⟨db', sofar ++ [event]⟩ := by
  have hordered := Db.Ordered.writeDraft h.ordered hwrite
  obtain ⟨-, -, hsequence, hseq⟩ := Db.writeDraft_projection hwrite
  obtain ⟨-, happ⟩ := Db.writeDraft_eq_ok.mp hwrite
  obtain ⟨p, -, happ⟩ := Except.bind_eq_ok.mp happ
  have hfloor := h.floor
  have hle := h.floor_le
  dsimp only at hfloor hle
  have hinsert : ∀ e ∈ (db.insertEvent event).events, db.minSequence ≤ e.sequence := by
    intro e he
    rcases List.mem_append.mp he with he | he
    · exact hfloor e he
    · obtain rfl := List.mem_singleton.mp he
      change db.minSequence ≤ event.sequence
      omega
  have hkept : ∀ e ∈ sofar ++ [event], e.toJson ∈ (db.insertEvent event).events ∨
      e.sequence < db.minSequence ∨ DeletedWithThread ⟨db', sofar ++ [event]⟩ e := by
    intro e he
    rcases List.mem_append.mp he with he | he
    · rcases h.kept e he with hstored | hbelow | hgone
      · exact .inl (List.mem_append_left _ hstored)
      · exact .inr (.inl hbelow)
      · exact .inr (.inr (hgone.mono (List.subset_append_left _ _)))
    · obtain rfl := List.mem_singleton.mp he
      exact .inl (List.mem_append_right _ (List.mem_singleton_self _))
  split at happ
  · rename_i at_ hpay
    cases happ
    refine ⟨hordered, fun e he => hinsert e (List.mem_of_mem_filter he), ?_, fun e he => ?_⟩
    · change db.minSequence ≤ event.sequence + 1
      omega
    · rcases hkept e he with hstored | hrest
      · by_cases hgone : e.threadId = event.threadId ∧ e.sequence < event.sequence
        · refine .inr (.inr ⟨event, ?_, by rw [hpay]; rfl, hgone.1.symm, hgone.2.le⟩)
          exact List.mem_append_right _ (List.mem_singleton_self _)
        · refine .inl (List.mem_filter.mpr ⟨hstored, ?_⟩)
          change (!(decide (e.threadId = event.threadId) && decide (e.sequence < event.sequence))) = true
          rw [← Bool.decide_and, decide_eq_false hgone]
          rfl
      · exact .inr hrest
  · cases happ
    refine ⟨hordered, hinsert, ?_, hkept⟩
    change db.minSequence ≤ event.sequence + 1
    omega

theorem Floored.sameEvents {written : List StoredEvent} (h : Floored ⟨db, written⟩) (hsame : Db.SameEvents db db') :
    Floored ⟨db', written⟩ := by
  obtain ⟨hordered, hfloor, hle, hkept⟩ := h
  refine ⟨hordered.of_sublist (hsame.events ▸ List.Sublist.refl _) hsame.seq, ?_, ?_, ?_⟩
  · simpa only [hsame.events, hsame.minSequence] using hfloor
  · simpa only [hsame.minSequence, hsame.seq] using hle
  · intro e he
    simpa only [hsame.events, hsame.minSequence, DeletedWithThread] using hkept e he

theorem oldestKept_spec (db : Db) (at_ : Int) : (∀ e ∈ db.keptEvents at_, db.oldestKept at_ ≤ e.sequence) ∧
      (db.oldestKept at_ = db.seq + 1 ∧ db.keptEvents at_ = [] ∨
        ∃ e ∈ db.keptEvents at_, e.sequence = db.oldestKept at_) := by
  unfold Db.oldestKept
  cases hmin : ((db.keptEvents at_).map (·.sequence)).min? with
  | none =>
    rw [List.min?_eq_none_iff, List.map_eq_nil_iff] at hmin
    simp [hmin, Db.lastSequence]
  | some least =>
    obtain ⟨hmem, hleast⟩ := List.min?_eq_some_iff.mp hmin
    refine ⟨fun e he => hleast _ (List.mem_map_of_mem he), .inr ?_⟩
    exact List.mem_map.mp hmem

variable {at_ : Int}

theorem lt_minSequence_prune {n : Nat} (hn : n ≤ db.seq)
    (hmoved : 0 < db.minSequence ∨ ∃ e ∈ db.events, db.prunable at_ e = true)
    (hpast : ∀ e ∈ db.events, db.prunable at_ e = false → n < e.sequence) :
    n < (db.prune at_).1.minSequence := by
  have hmoves : 0 < (db.events.filter (db.prunable at_)).length ∨ 0 < db.minSequence := by
    rcases hmoved with hmin | ⟨e, he, hprune⟩
    · exact .inr hmin
    · exact .inl (List.length_pos_of_mem (List.mem_filter.mpr ⟨he, hprune⟩))
  have hmin : (db.prune at_).1.minSequence = db.oldestKept at_ := if_pos hmoves
  rw [hmin]
  rcases (oldestKept_spec db at_).2 with ⟨hnone, -⟩ | ⟨e, he, heq⟩
  · omega
  · obtain ⟨hstored, hkept⟩ := List.mem_filter.mp he
    exact heq ▸ hpast e hstored (by simpa using hkept)

/-- What a prune from below does to the floor: it rises over all that is deleted and stays at or below
all that is left. -/
theorem Floored.prune_floor (h : l.Floored) (hbelow : l.FromBelow (.prune at_)) :
    l.db.minSequence ≤ (l.db.prune at_).1.minSequence ∧ (l.db.prune at_).1.minSequence ≤ l.db.seq + 1 ∧
      (∀ e ∈ l.db.keptEvents at_, (l.db.prune at_).1.minSequence ≤ e.sequence) ∧
      ∀ e ∈ l.db.events, l.db.prunable at_ e = true → e.sequence < (l.db.prune at_).1.minSequence := by
  obtain ⟨hordered, hfloor, hle, -⟩ := h
  obtain ⟨hleast, hattained⟩ := oldestKept_spec l.db at_
  have hsub : (l.db.keptEvents at_).Sublist l.db.events := List.filter_sublist
  by_cases hmoved : 0 < (l.db.events.filter (l.db.prunable at_)).length ∨ 0 < l.db.minSequence
  · have hmin : (l.db.prune at_).1.minSequence = l.db.oldestKept at_ := if_pos hmoved
    rw [hmin]
    rcases hattained with ⟨hnone, -⟩ | ⟨kept, hmem, heq⟩
    · rw [hnone] at hleast ⊢
      exact ⟨hle, le_rfl, hleast, fun e he _ => Nat.lt_succ_of_le (hordered.le_seq e he)⟩
    · rw [← heq] at hleast ⊢
      have hstored := hsub.subset hmem
      refine ⟨hfloor kept hstored, (hordered.le_seq kept hstored).trans (Nat.le_succ _), hleast,
        fun e he hprune => ?_⟩
      have hnot := (List.mem_filter.mp hmem).2
      by_contra hlt
      rcases (not_lt.mp hlt).lt_or_eq with hlt | hsame
      · simp [hbelow kept hstored e he hlt hprune] at hnot
      · obtain rfl := hordered.eq_of_sequence hstored he hsame
        simp [hprune] at hnot
  · have hmin : (l.db.prune at_).1.minSequence = l.db.minSequence := if_neg hmoved
    rw [hmin]
    refine ⟨le_rfl, hle, fun e he => hfloor e (hsub.subset he), fun e he hprune => ?_⟩
    exact absurd (.inl (List.length_pos_of_mem (List.mem_filter.mpr ⟨he, hprune⟩))) hmoved

theorem Floored.prune (h : l.Floored) (hbelow : l.FromBelow (.prune at_)) :
    Floored { l with db := (l.db.prune at_).1 } := by
  obtain ⟨hge, hle, hleast, hgone⟩ := h.prune_floor hbelow
  refine ⟨h.ordered.of_sublist List.filter_sublist rfl, hleast, hle, fun e he => ?_⟩
  rcases h.kept e he with hstored | hlow | hdeleted
  · by_cases hprune : l.db.prunable at_ e.toJson = true
    · exact .inr (.inl (hgone e.toJson hstored hprune))
    · exact .inl (List.mem_filter.mpr ⟨hstored, by simpa using hprune⟩)
  · exact .inr (.inl (hlow.trans_le hge))
  · exact .inr (.inr hdeleted)

theorem Floored.step {op : StoreOp} (h : l.Floored) (hbelow : l.FromBelow op) (hstep : l.step op = some l') :
    l'.Floored := by
  cases op with
  | append batch =>
    obtain ⟨db, written, happ, rfl⟩ := step_append_eq_some.mp hstep
    obtain ⟨m, hm, hsame⟩ := Db.append_eq_ok happ
    refine Floored.sameEvents ?_ hsame
    exact Fold.traceM_invariant (C := fun _ _ => True)
      (P := fun (db : Db) (sofar : List StoredEvent) => Floored ⟨db, sofar⟩)
      (fun _ _ _ _ _ hs _ hwrite => hs.writeDraft hwrite) h
      (Fold.along_of_forall fun _ _ _ => trivial) hm
  | prune at_ =>
    cases hstep
    exact h.prune hbelow

/-- In every run of batches and prunes, as long as each prune deletes events from below, every cursor
that is replayed from finds every event after it that did not go with its thread. -/
theorem complete_of_fromBelow {l : Ledger} (h : Runs.Run step FromBelow new l) : l.Complete :=
  (h.invariant (fun _ _ _ hs hbelow hstep => hs.step hbelow hstep) Floored.new).complete

def prunedRun : List StoreOp :=
  [.append { drafts := [createProject (testProject "w1")], ts := 0 }, .prune (RETAIN_EVENTS_MS + 1)]

/-- A young store loses nothing. -/
theorem complete_of_fromBelow_prunedRun : ∃ l, Runs.exec step FromBelow new prunedRun = some l ∧ l.Complete :=
  have hrun : (Runs.exec step FromBelow new prunedRun).isSome = true := by decide
  ⟨_, (Option.some_get hrun).symm, complete_of_fromBelow (Runs.run_of_exec (Option.some_get hrun).symm)⟩

/-! ### A clock step -/

def notice : EventDraft where
  payload := .commandRejected "r" none none

private theorem traceM_notices (ts : Int) (n : Nat) (db : Db) : ∃ db' written,
    Fold.traceM (Db.writeDraft {} ts) db (List.replicate n notice) = .ok (db', written) ∧
      db'.seq = db.seq + n ∧ (∀ e ∈ db.events, e ∈ db'.events) ∧
      ∀ e ∈ written, e.payload.type = .commandRejected := by
  induction n generalizing db with
  | zero => exact ⟨db, [], rfl, rfl, fun _ he => he, by simp⟩
  | succ n ih =>
    let event := db.stamp {} ts notice
    obtain ⟨db', written, hrest, hseq, hevents, htypes⟩ := ih (db.insertEvent event)
    refine ⟨db', event :: written, ?_, ?_, fun e he => hevents e (List.mem_append_left _ he), ?_⟩
    · exact Fold.traceM_cons_eq_ok.mpr ⟨_, event, written, rfl, hrest, rfl⟩
    · rw [hseq]
      change db.seq + 1 + n = db.seq + (n + 1)
      omega
    · intro e he
      rcases List.mem_cons.mp he with rfl | he
      · rfl
      · exact htypes e he

theorem step_notices (ts : Int) (n : Nat) (l : Ledger) : ∃ filled,
    l.step (.append { drafts := List.replicate n notice, ts }) = some filled ∧
      filled.db.seq = l.db.seq + n ∧ (∀ e ∈ l.db.events, e ∈ filled.db.events) ∧
      ∃ written, filled.written = l.written ++ written ∧ ∀ e ∈ written, e.payload.type = .commandRejected := by
  obtain ⟨db, written, hfill, hseq, hevents, htypes⟩ := traceM_notices ts n l.db
  exact ⟨_, step_append_eq_some.mpr ⟨db, written, Db.append_of_traceM hfill, rfl⟩, hseq, hevents,
    written, rfl, htypes⟩

/-- A project written while the clock was ahead, and one written after it stepped back. -/
def clockStep : List StoreOp :=
  [.append { drafts := [createProject (testProject "w1")], ts := RETAIN_EVENTS_MS },
    .append { drafts := [createProject (testProject "w2")], ts := 0 }]

/-- Two events are written, the first one ahead of the second one's time. -/
private def steppedBack (l : Ledger) : Bool :=
  decide (l.db.seq = 2 ∧ (∃ e ∈ l.db.events, e.sequence = 1 ∧ e.ts = RETAIN_EVENTS_MS) ∧
    (∃ e ∈ l.written, e.sequence = 2 ∧ e.ts = 0 ∧ e.toJson ∈ l.db.events) ∧
    ∀ e ∈ l.written, e.payload.type = .projectUpserted)

theorem not_mem_eventsAfter_prune (hordered : db.Ordered) (hstored : event.toJson ∈ db.events)
    (hprune : db.prunable at_ event.toJson = true) (cursor : Nat) (o : Db.EventsAfterOptions)
    (hlimit : o.limit = none) :
    event.toJson.toWireEvent ∉ (db.prune at_).1.eventsAfter cursor o := by
  intro hmem
  obtain ⟨found, hfound, hsame⟩ := List.mem_map.mp hmem
  simp only [Db.selectEvents, hlimit] at hfound
  obtain ⟨hevents, hnot⟩ := List.mem_filter.mp (List.mem_of_mem_filter hfound)
  have hseq : found.sequence = event.toJson.sequence := congrArg ThreadEvent.sequence hsame
  rw [hordered.eq_of_sequence hevents hstored hseq, hprune] at hnot
  cases hnot

/-- A prune that deletes the second project's event keeps the first one's: from a cursor between them,
which the routes replay from, a stream misses a committed event. -/
theorem gap_of_clock_step : ¬ ∀ l, Runs.Run step (fun _ _ => True) new l → l.Complete := by
  intro hclaim
  have hexec : (Runs.exec step (fun _ _ => True) new clockStep).any steppedBack = true := by decide
  obtain ⟨l, hrun, hl⟩ := Runs.exists_run_of_exec hexec
  obtain ⟨hseq₂, ⟨ahead, hahead, haheadSeq, haheadTs⟩, ⟨lost, hlost, hlostSeq, hlostTs, hstored⟩,
    hprojects⟩ := of_decide_eq_true hl
  obtain ⟨filled, hfilled, hseq, hevents, written, hwritten, htypes⟩ := step_notices RETAIN_EVENTS_MS 50000 l
  have hfilledRun : Runs.Run step (fun _ _ => True) new filled := .next hrun trivial hfilled
  have hordered := ordered_of_run hfilledRun
  let at_ := RETAIN_EVENTS_MS + 1
  have hlast : filled.db.lastSequence = 50002 := by
    change filled.db.seq = 50002
    rw [hseq, hseq₂]
  have hprune : filled.db.prunable at_ lost.toJson = true := by
    have hts : lost.toJson.ts = 0 := hlostTs
    have hsequence : lost.toJson.sequence = 2 := hlostSeq
    simp only [Db.prunable, hlast, hts, hsequence, at_, RETAIN_EVENTS_MIN]
    decide
  have hkept : ahead ∈ filled.db.keptEvents at_ := by
    refine List.mem_filter.mpr ⟨hevents ahead hahead, ?_⟩
    simp [Db.prunable, haheadTs, at_, RETAIN_EVENTS_MS]
  have hmin : (filled.db.prune at_).1.minSequence ≤ 1 := by
    have hdeleted : 0 < (filled.db.events.filter (filled.db.prunable at_)).length :=
      List.length_pos_of_mem (List.mem_filter.mpr ⟨hevents _ hstored, hprune⟩)
    have hmoved : (filled.db.prune at_).1.minSequence = filled.db.oldestKept at_ := if_pos (.inl hdeleted)
    rw [hmoved, ← haheadSeq]
    exact (oldestKept_spec filled.db at_).1 ahead hkept
  have hcomplete : Complete { filled with db := (filled.db.prune at_).1 } :=
    hclaim _ (.next (a := .prune at_) hfilledRun trivial rfl)
  refine not_mem_eventsAfter_prune hordered (hevents _ hstored) hprune 1 {} rfl ?_
  refine hcomplete 1 hmin ?_ {} rfl lost ?_ ?_ rfl ?_
  · change 1 ≤ filled.db.lastSequence
    omega
  · rw [hwritten]
    exact List.mem_append_left _ hlost
  · omega
  · rintro ⟨d, hd, htype, -⟩
    rw [hwritten] at hd
    rcases List.mem_append.mp hd with hd | hd
    · cases htype.symm.trans (hprojects d hd)
    · cases htype.symm.trans (htypes d hd)

end Ledger

end Sightr
