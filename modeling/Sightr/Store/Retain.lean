import Sightr.Store.Prune

/-!
# What a prune takes and what it leaves

Five deletes run in one prune: old events, old receipts, the lowest items of crowded threads, and the threads that
were archived for long, with everything that refers to them. Each takes only what its own test names, a row that
stays is as it was, and no sequence goes back.

A thread that was archived for long goes as a whole, with the items of a run that was never ended.
-/

namespace Sightr

open Keyed (Table)

namespace Projection

variable {p p' q : Projection}

/-! ### Tables that only lose rows -/

structure Shrinks (p p' : Projection) : Prop where
  projects : p'.projects.rows.Sublist p.projects.rows
  threads : p'.threads.rows.Sublist p.threads.rows
  runs : p'.runs.rows.Sublist p.runs.rows
  turnItems : p'.turnItems.rows.Sublist p.turnItems.rows
  runtimeRequests : p'.runtimeRequests.rows.Sublist p.runtimeRequests.rows
  queuedMessages : p'.queuedMessages.rows.Sublist p.queuedMessages.rows
  runCheckpoints : p'.runCheckpoints.rows.Sublist p.runCheckpoints.rows

theorem Shrinks.refl (p : Projection) : Shrinks p p :=
  ⟨.refl _, .refl _, .refl _, .refl _, .refl _, .refl _, .refl _⟩

theorem Shrinks.trans (h : Shrinks p p') (h' : Shrinks p' q) : Shrinks p q where
  projects := h'.projects.trans h.projects
  threads := h'.threads.trans h.threads
  runs := h'.runs.trans h.runs
  turnItems := h'.turnItems.trans h.turnItems
  runtimeRequests := h'.runtimeRequests.trans h.runtimeRequests
  queuedMessages := h'.queuedMessages.trans h.queuedMessages
  runCheckpoints := h'.runCheckpoints.trans h.runCheckpoints

section

variable (p : Projection)

theorem shrinks_pruneItems (thread : String × Nat) : Shrinks p (p.pruneItems thread) :=
  { Shrinks.refl p with turnItems := List.filter_sublist }

theorem shrinks_deleteThread (threadId : String) : Shrinks p (p.deleteThread threadId) where
  projects := .refl _
  threads := List.filter_sublist
  runs := List.filter_sublist
  turnItems := List.filter_sublist
  runtimeRequests := List.filter_sublist
  queuedMessages := List.filter_sublist
  runCheckpoints := List.filter_sublist

private theorem shrinks_foldl {α : Type*} {f : Projection → α → Projection} (hf : ∀ p a, Shrinks p (f p a))
    (l : List α) (p : Projection) : Shrinks p (l.foldl f p) := by
  induction l generalizing p with
  | nil => exact .refl p
  | cons a l ih => exact (hf p a).trans (ih (f p a))

theorem shrinks_prune (at_ : Int) : Shrinks p (p.prune at_) :=
  (shrinks_foldl shrinks_pruneItems _ p).trans (shrinks_foldl shrinks_deleteThread _ _)

/-! ### The items of a thread -/

def InRunningRun (row : TurnItemRow) : Prop := ∃ id ∈ row.runId, ∃ run ∈ p.runs.find? id, run.status = .running

end

variable {row : TurnItemRow}

theorem removable_eq_false_iff : p.removable row = false ↔ p.InRunningRun row := by
  unfold removable InRunningRun
  cases row.runId with
  | none => simp
  | some id => cases h : p.runs.find? id <;> simp [h]

theorem removable_iff : p.removable row = true ↔ ¬p.InRunningRun row := by
  rw [← removable_eq_false_iff, Bool.not_eq_false]

/-- The thread was archived for longer than archived threads are kept. -/
def Expired (p : Projection) (at_ : Int) (threadId : String) : Prop :=
  ∃ thread ∈ p.threads.find? threadId, thread.shelf = .archived ∧
    ∃ archivedAt ∈ thread.archivedAt, archivedAt < at_ - RETAIN_ARCHIVED_MS

variable {at_ : Int} {threadId : String}

theorem mem_expiredThreads_iff : threadId ∈ p.expiredThreads at_ ↔ p.Expired at_ threadId := by
  simp only [expiredThreads, List.mem_map, List.mem_filter, Bool.and_eq_true, decide_eq_true_eq, Option.any_eq_true,
    Expired]
  constructor
  · rintro ⟨thread, ⟨hthread, hshelf, at', hat, hlt⟩, rfl⟩
    exact ⟨thread, Table.find?_key hthread, hshelf, at', hat, hlt⟩
  · rintro ⟨thread, hfind, hshelf, at', hat, hlt⟩
    exact ⟨thread, ⟨Table.mem_of_find? hfind, hshelf, at', hat, hlt⟩, Table.key_of_find? hfind⟩

def takenItems (p : Projection) (threadId : String) : List TurnItemRow :=
  p.oldestItems threadId ((p.itemRows threadId).length - MAX_ITEMS_PER_THREAD)

theorem removable_foldl_pruneItems (threads : List (String × Nat)) (p : Projection) :
    (threads.foldl pruneItems p).removable = p.removable := by
  funext row
  rw [foldl_pruneItems_eq]
  rfl

theorem mem_own_itemRows : row ∈ p.turnItems.rows ↔ row ∈ p.itemRows row.threadId := by
  rw [mem_itemRows_iff]
  exact (and_iff_left rfl).symm

theorem mem_foldl_crowded_iff : row ∈ (p.crowded.foldl pruneItems p).turnItems.rows ↔
      row ∈ p.turnItems.rows ∧ row ∉ p.takenItems row.threadId := by
  by_cases hcut : row.threadId ∈ p.crowded.map (·.1)
  · obtain ⟨before, after, hsplit, hbefore, hafter, -⟩ := crowded_split hcut
    have hrows : (before.foldl pruneItems p).itemRows row.threadId = p.itemRows row.threadId :=
      itemRows_foldl_pruneItems_of_not_mem hbefore
    rw [mem_own_itemRows, hsplit, List.foldl_append, List.foldl_cons, itemRows_foldl_pruneItems_of_not_mem hafter,
      ← mem_own_itemRows, mem_pruneItems, mem_own_itemRows, hrows, oldestItems, removable_foldl_pruneItems, hrows,
      ← mem_own_itemRows]
    rfl
  · have hrows : (p.crowded.foldl pruneItems p).itemRows row.threadId = p.itemRows row.threadId :=
      itemRows_foldl_pruneItems_of_not_mem hcut
    rw [mem_own_itemRows, hrows, ← mem_own_itemRows]
    refine (and_iff_left_of_imp fun hrow htaken => hcut ?_).symm
    have hover : MAX_ITEMS_PER_THREAD < (p.itemRows row.threadId).length := by
      by_contra hfew
      rw [takenItems, oldestItems, Nat.sub_eq_zero_of_le (not_lt.mp hfew), List.take_zero] at htaken
      cases htaken
    exact List.mem_map.mpr ⟨(row.threadId, _), List.mem_filter.mpr
      ⟨List.mem_map_of_mem (List.mem_dedup.mpr (List.mem_map_of_mem hrow)), decide_eq_true hover⟩, rfl⟩

theorem mem_prune_iff : row ∈ (p.prune at_).turnItems.rows ↔
    row ∈ p.turnItems.rows ∧ row ∉ p.takenItems row.threadId ∧ ¬p.Expired at_ row.threadId := by
  rw [prune, (foldl_deleteThread_eq _ _).2, Table.rows_filter, List.mem_filter, mem_foldl_crowded_iff, and_assoc,
    ← mem_expiredThreads_iff, decide_eq_true_iff]

theorem mem_takenItems (h : row ∈ p.takenItems threadId) : row ∈ p.itemRows threadId ∧ p.removable row = true :=
  List.mem_filter.mp (List.mem_of_mem_take h)

theorem length_takenItems_le (p : Projection) (threadId : String) :
    (p.takenItems threadId).length ≤ (p.itemRows threadId).length - MAX_ITEMS_PER_THREAD :=
  List.length_take_le _ _

theorem mem_takenItems_of_lt (hrow : row ∈ p.itemRows threadId) (hremovable : p.removable row = true)
    (hfew : (p.takenItems threadId).length < (p.itemRows threadId).length - MAX_ITEMS_PER_THREAD) :
    row ∈ p.takenItems threadId := by
  have hmem : row ∈ (p.itemRows threadId).filter p.removable := List.mem_filter.mpr ⟨hrow, hremovable⟩
  rw [takenItems, oldestItems, List.length_take] at hfew
  rwa [takenItems, oldestItems, List.take_of_length_le (by omega)]

theorem nodup_itemRows' (p : Projection) (threadId : String) : (p.itemRows threadId).Nodup :=
  (List.perm_insertionSort _ _).nodup_iff.mpr (p.turnItems.nodup.of_map.filter _)

theorem takenItems_le {a b : TurnItemRow} (ha : a ∈ p.takenItems threadId) (hb : b ∈ p.itemRows threadId)
    (hremovable : p.removable b = true) (hnot : b ∉ p.takenItems threadId) :
    a.position ≤ b.position := by
  have hsorted : ((p.itemRows threadId).filter p.removable).Pairwise (·.position ≤ ·.position) :=
    (List.pairwise_insertionSort _ _).filter _
  rw [← List.take_append_drop ((p.itemRows threadId).length - MAX_ITEMS_PER_THREAD)
    ((p.itemRows threadId).filter p.removable)] at hsorted
  have hmem : b ∈ (p.itemRows threadId).filter p.removable := List.mem_filter.mpr ⟨hb, hremovable⟩
  rw [← List.take_append_drop ((p.itemRows threadId).length - MAX_ITEMS_PER_THREAD)
    ((p.itemRows threadId).filter p.removable)] at hmem
  exact (List.pairwise_append.mp hsorted).2.2 a ha b ((List.mem_append.mp hmem).resolve_left hnot)

theorem length_itemRows_prune (hstays : ¬p.Expired at_ threadId) :
    ((p.prune at_).itemRows threadId).length + (p.takenItems threadId).length = (p.itemRows threadId).length := by
  have hperm : ((p.prune at_).itemRows threadId).Perm
      ((p.itemRows threadId).filter (decide <| · ∉ p.takenItems threadId)) := by
    refine (List.perm_ext_iff_of_nodup (nodup_itemRows' _ _) ((nodup_itemRows' _ _).filter _)).mpr fun row => ?_
    rw [mem_itemRows_iff, mem_prune_iff, List.mem_filter, mem_itemRows_iff, decide_eq_true_iff]
    constructor
    · rintro ⟨⟨hrow, hkept, -⟩, rfl⟩
      exact ⟨⟨hrow, rfl⟩, hkept⟩
    · rintro ⟨⟨hrow, rfl⟩, hkept⟩
      exact ⟨⟨hrow, hkept, hstays⟩, rfl⟩
  have htaken : (p.takenItems threadId).Perm
      ((p.itemRows threadId).filter (decide <| · ∈ p.takenItems threadId)) := by
    have hnodup : (p.takenItems threadId).Nodup :=
      ((nodup_itemRows' p threadId).filter _).sublist (List.take_sublist _ _)
    refine (List.perm_ext_iff_of_nodup hnodup ((nodup_itemRows' _ _).filter _)).mpr fun row => ?_
    rw [List.mem_filter, decide_eq_true_iff]
    exact ⟨fun h => ⟨(mem_takenItems h).1, h⟩, And.right⟩
  have hsplit := List.length_eq_length_filter_add (l := p.itemRows threadId) (decide <| · ∈ p.takenItems threadId)
  rw [hperm.length_eq, htaken.length_eq, hsplit, Nat.add_comm]
  simp only [decide_not]

theorem mem_takenItems_of_not_mem (hrow : row ∈ p.turnItems.rows) (hstays : ¬p.Expired at_ row.threadId)
    (hnot : row ∉ (p.prune at_).turnItems.rows) :
    row ∈ p.takenItems row.threadId := by
  by_contra hkept
  exact hnot (mem_prune_iff.mpr ⟨hrow, hkept, hstays⟩)

theorem of_mem_itemRows_prune (hrow : row ∈ (p.prune at_).itemRows threadId) :
    row ∈ p.itemRows threadId ∧ row ∉ p.takenItems threadId ∧ ¬p.Expired at_ threadId := by
  obtain ⟨hmem, rfl⟩ := mem_itemRows_iff.mp hrow
  obtain ⟨hstored, hrest⟩ := mem_prune_iff.mp hmem
  exact ⟨mem_itemRows_iff.mpr ⟨hstored, rfl⟩, hrest⟩

theorem running_of_excess (hover : MAX_ITEMS_PER_THREAD < ((p.prune at_).itemRows threadId).length)
    (hrow : row ∈ (p.prune at_).itemRows threadId) : p.InRunningRun row := by
  obtain ⟨hmem, hnot, hstays⟩ := of_mem_itemRows_prune hrow
  by_contra hfree
  have hcount := length_itemRows_prune hstays
  exact hnot (mem_takenItems_of_lt hmem (removable_iff.mpr hfree) (by omega))

theorem length_of_taken (hrow : row ∈ p.turnItems.rows) (hstays : ¬p.Expired at_ row.threadId)
    (hnot : row ∉ (p.prune at_).turnItems.rows) :
    MAX_ITEMS_PER_THREAD ≤ ((p.prune at_).itemRows row.threadId).length := by
  have hcount := length_itemRows_prune hstays
  have hpos := List.length_pos_of_mem (mem_takenItems_of_not_mem hrow hstays hnot)
  have hmost := length_takenItems_le p row.threadId
  omega

theorem expired_of_not_mem {thread : ServerThread} (hthread : thread ∈ p.threads.rows)
    (hnot : thread ∉ (p.prune at_).threads.rows) :
    thread.shelf = .archived ∧ ∃ archivedAt ∈ thread.archivedAt, archivedAt < at_ - RETAIN_ARCHIVED_MS := by
  have hexpired : p.Expired at_ thread.id := by
    by_contra hstays
    refine hnot ?_
    rw [prune, (foldl_deleteThread_eq _ _).1, foldl_pruneItems_eq, Table.rows_filter, List.mem_filter]
    exact ⟨hthread, decide_eq_true fun hgone => hstays (mem_expiredThreads_iff.mp hgone)⟩
  obtain ⟨found, hfound, hlong⟩ := hexpired
  obtain rfl : thread = found := Option.some.inj ((Table.find?_key hthread).symm.trans hfound)
  exact hlong

end Projection

namespace Db

/-! ### One prune -/

structure PrunesSafely (db : Db) (at_ : Int) : Prop where
  /-- An item of a run that is still running goes only with its thread, one archived for long. -/
  running : ∀ row ∈ db.projection.turnItems.rows, db.projection.InRunningRun row →
    ¬db.projection.Expired at_ row.threadId → row ∈ (db.prune at_).1.projection.turnItems.rows
  /-- A thread left with too many items holds those of running runs only. -/
  excess : ∀ threadId, MAX_ITEMS_PER_THREAD < ((db.prune at_).1.projection.itemRows threadId).length →
    ∀ row ∈ (db.prune at_).1.projection.itemRows threadId, db.projection.InRunningRun row
  /-- What goes of a thread that stays belongs to no running run and stands below all of that kind that stay. -/
  lowest : ∀ row ∈ db.projection.turnItems.rows, ¬db.projection.Expired at_ row.threadId →
    row ∉ (db.prune at_).1.projection.turnItems.rows → ¬db.projection.InRunningRun row ∧
      ∀ kept ∈ (db.prune at_).1.projection.itemRows row.threadId, ¬db.projection.InRunningRun kept →
        row.position ≤ kept.position
  /-- And no more goes of it than what it holds too many. -/
  needed : ∀ row ∈ db.projection.turnItems.rows, ¬db.projection.Expired at_ row.threadId →
    row ∉ (db.prune at_).1.projection.turnItems.rows →
      MAX_ITEMS_PER_THREAD ≤ ((db.prune at_).1.projection.itemRows row.threadId).length
  /-- The newest sequences stay, and so do young events. -/
  events : ∀ event ∈ db.events,
    (db.lastSequence : Int) - RETAIN_EVENTS_MIN < event.sequence ∨ at_ - RETAIN_EVENTS_MS ≤ event.ts →
      event ∈ (db.prune at_).1.events
  /-- A thread that goes is archived, and was for long. -/
  threads : ∀ thread ∈ db.projection.threads.rows, thread ∉ (db.prune at_).1.projection.threads.rows →
    thread.shelf = .archived ∧ ∃ archivedAt ∈ thread.archivedAt, archivedAt < at_ - RETAIN_ARCHIVED_MS
  shrinks : Projection.Shrinks db.projection (db.prune at_).1.projection
  stored : (db.prune at_).1.events.Sublist db.events ∧ (db.prune at_).1.receipts.rows.Sublist db.receipts.rows ∧
    (db.prune at_).1.offsets.rows.Sublist db.offsets.rows ∧ (db.prune at_).1.patches.rows.Sublist db.patches.rows
  lastSequence : db.lastSequence ≤ (db.prune at_).1.lastSequence
  minSequence : db.minSequence ≤ (db.prune at_).1.minSequence

/-- No stored event has a sequence below `minSequence`, nor will the next one. -/
structure Bounded (db : Db) : Prop where
  floor : ∀ event ∈ db.events, db.minSequence ≤ event.sequence
  le_seq : db.minSequence ≤ db.seq + 1

theorem Bounded.empty : empty.Bounded := ⟨fun _ he => absurd he List.not_mem_nil, Nat.zero_le _⟩

variable {db db' : Db}

private theorem Bounded.writeDraft {options : AppendOptions} {ts : Int} {raw : EventDraft} {event : StoredEvent}
    (h : db.Bounded) (hwrite : Db.writeDraft options ts db raw = .ok (db', event)) :
    db'.Bounded := by
  obtain ⟨-, -, hsequence, -⟩ := Db.writeDraft_projection hwrite
  obtain ⟨-, happ⟩ := Db.writeDraft_eq_ok.mp hwrite
  obtain ⟨p, -, happ⟩ := Except.bind_eq_ok.mp happ
  have hnext : db.minSequence ≤ event.sequence := hsequence ▸ h.le_seq
  have hinsert : ∀ e ∈ (db.insertEvent event).events, db.minSequence ≤ e.sequence := by
    intro e he
    rcases List.mem_append.mp he with he | he
    · exact h.floor e he
    · rw [List.mem_singleton.mp he]
      exact hnext
  split at happ
  · cases happ
    exact ⟨fun e he => hinsert e (List.mem_of_mem_filter he), hnext.trans (Nat.le_succ _)⟩
  · cases happ
    exact ⟨hinsert, hnext.trans (Nat.le_succ _)⟩

theorem Bounded.append {batch : Batch} {written : List StoredEvent} (h : db.Bounded)
    (happ : db.append batch = .ok (db', written)) : db'.Bounded := by
  obtain ⟨m, hm, hsame⟩ := append_eq_ok happ
  have hmid : m.Bounded :=
    Fold.traceM_invariant (C := fun _ _ => True) (P := fun (db : Db) (_ : List StoredEvent) => db.Bounded)
      (fun _ _ _ _ _ hs _ hwrite => hs.writeDraft hwrite) (w := []) h (Fold.along_of_forall fun _ _ _ => trivial) hm
  refine ⟨?_, ?_⟩
  · simpa only [hsame.events, hsame.minSequence] using hmid.floor
  · simpa only [hsame.minSequence, hsame.seq] using hmid.le_seq

private theorem Bounded.prune_floor (h : db.Bounded) (hordered : db.Ordered) (at_ : Int) :
    db.minSequence ≤ (db.prune at_).1.minSequence ∧ (db.prune at_).1.Bounded := by
  obtain ⟨hleast, hattained⟩ := Ledger.oldestKept_spec db at_
  by_cases hmoved : 0 < (db.events.filter (db.prunable at_)).length ∨ 0 < db.minSequence
  · have hmin : (db.prune at_).1.minSequence = db.oldestKept at_ := if_pos hmoved
    refine ⟨?_, ⟨fun e he => hmin ▸ hleast e he, ?_⟩⟩
    · rw [hmin]
      rcases hattained with ⟨hnone, -⟩ | ⟨kept, hmem, heq⟩
      · exact hnone ▸ h.le_seq
      · exact heq ▸ h.floor kept (List.mem_of_mem_filter hmem)
    · rw [hmin]
      rcases hattained with ⟨hnone, -⟩ | ⟨kept, hmem, heq⟩
      · exact hnone.le
      · exact heq ▸ (hordered.le_seq kept (List.mem_of_mem_filter hmem)).trans (Nat.le_succ _)
  · have hmin : (db.prune at_).1.minSequence = db.minSequence := if_neg hmoved
    exact ⟨hmin.ge, ⟨fun e he => hmin ▸ h.floor e (List.mem_of_mem_filter he), hmin ▸ h.le_seq⟩⟩

end Db

namespace Ledger

theorem bounded_of_run {l : Ledger} (h : Runs.Run step (fun _ _ => True) new l) : l.db.Bounded ∧ l.db.Ordered := by
  refine h.invariant (P := fun l => l.db.Bounded ∧ l.db.Ordered) (fun l op l' hl _ hstep => ?_) ⟨.empty, .empty⟩
  cases op with
  | append batch =>
    obtain ⟨db, written, happ, rfl⟩ := step_append_eq_some.mp hstep
    exact ⟨hl.1.append happ, hl.2.append happ⟩
  | prune at_ =>
    cases hstep
    exact ⟨(hl.1.prune_floor hl.2 at_).2, hl.2.of_sublist List.filter_sublist rfl⟩

/-- Every prune, at any time, of a store that batches and prunes have built takes only what it may: of the items of a
thread that stays, the lowest ones that belong to no running run, and no more than the thread holds too many; no event
among the newest or the young ones; no thread that is not archived. It changes no row that is left, and no sequence
goes back. -/
theorem prunes_safely {l : Ledger} (hrun : Runs.Run step (fun _ _ => True) new l) (at_ : Int) :
    l.db.PrunesSafely at_ where
  running row hrow hrunning hstays := Projection.mem_prune_iff.mpr ⟨hrow, fun htaken =>
    Projection.removable_iff.mp (Projection.mem_takenItems htaken).2 hrunning, hstays⟩
  excess _ hover _ hrow := Projection.running_of_excess hover hrow
  lowest row hrow hstays hnot := by
    have htaken := Projection.mem_takenItems_of_not_mem hrow hstays hnot
    refine ⟨Projection.removable_iff.mp (Projection.mem_takenItems htaken).2, fun kept hkept hfree => ?_⟩
    obtain ⟨hmem, hnottaken, -⟩ := Projection.of_mem_itemRows_prune hkept
    exact Projection.takenItems_le htaken hmem (Projection.removable_iff.mpr hfree) hnottaken
  needed _ hrow hstays hnot := Projection.length_of_taken hrow hstays hnot
  events event hevent hkeep := by
    refine List.mem_filter.mpr ⟨hevent, ?_⟩
    rw [Bool.not_eq_true', Bool.eq_false_iff]
    intro hprune
    simp only [Db.prunable, Bool.and_eq_true, decide_eq_true_eq] at hprune
    omega
  threads _ hthread hnot := Projection.expired_of_not_mem hthread hnot
  shrinks := Projection.shrinks_prune _ at_
  stored := ⟨List.filter_sublist, List.filter_sublist, List.filter_sublist, List.filter_sublist⟩
  lastSequence := le_rfl
  minSequence := ((bounded_of_run hrun).1.prune_floor (bounded_of_run hrun).2 at_).1

/-- A thread with a run and an item of it, archived while the run is open. -/
def archivedOpen : List StoreOp :=
  [.append runningOpen,
    .append { drafts := [{ threadId := some "t1", payload := .threadArchived .user 0 }], ts := 0 }]
where
  /-- A project, a thread, its run and an item of the run. -/
  runningOpen : Batch :=
    { drafts := [createProject (testProject "w1"), createThread (testThread "t1"), startRun "r1" 1,
        writeText "i1" (some "r1")]
      ts := 0 }

/-- A young store loses nothing that it should keep. -/
theorem prunes_safely_archived : ∃ l, Runs.exec step (fun _ _ => True) new archivedOpen = some l ∧
    l.db.PrunesSafely 1000 := by
  have hrun : (Runs.exec step (fun _ _ => True) new archivedOpen).isSome = true := by decide
  exact ⟨_, (Option.some_get hrun).symm, prunes_safely (Runs.run_of_exec (Option.some_get hrun).symm) 1000⟩

private def dropsOpen (l : Ledger) : Bool :=
  let p := l.db.projection
  p.turnItems.rows.any fun row =>
    !p.removable row && decide (row ∉ (p.prune (RETAIN_ARCHIVED_MS + 1)).turnItems.rows)

/-- A thread is archived while its run is open, and nothing ends the run: ninety days later a prune takes the thread,
the run and the items of the run. -/
theorem prune_drops_running :
    ¬∀ l, Runs.Run step (fun _ _ => True) new l → ∀ at_, ∀ row ∈ l.db.projection.turnItems.rows,
      l.db.projection.InRunningRun row → row ∈ (l.db.prune at_).1.projection.turnItems.rows := by
  intro h
  have hexec : (Runs.exec step (fun _ _ => True) new archivedOpen).any dropsOpen = true := by decide
  obtain ⟨l, hrun, hdrops⟩ := Runs.exists_run_of_exec hexec
  obtain ⟨row, hrow, hboth⟩ := List.any_eq_true.mp hdrops
  rw [Bool.and_eq_true, Bool.not_eq_true', decide_eq_true_iff] at hboth
  exact hboth.2 (h l hrun _ row hrow (Projection.removable_eq_false_iff.mp hboth.1))

end Ledger

end Sightr
