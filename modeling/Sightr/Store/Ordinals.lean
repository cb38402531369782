import Sightr.Store.Items
import Sightr.Store.Prune

/-!
# Item positions over a store's life

The next position of a thread is one past the highest of the items it has now, for `prepare` and for
the checkpoint item alike. Deleting a thread takes its items and its id together; a prune takes the
oldest items that belong to no running run, and where running runs fill the thread up to the limit
these are its newest ones, whose positions the next items take again.
-/

namespace Sightr

open Keyed (Table)

namespace Projection

/-! ### Positions in one projection -/

def DistinctPositions (p : Projection) : Prop :=
  ∀ a ∈ p.turnItems.rows, ∀ b ∈ p.turnItems.rows, a.threadId = b.threadId → a.position = b.position → a = b

/-- Some item of the thread stands at the position or above it. -/
def Reaches (p : Projection) (threadId : String) (position : Int) : Prop :=
  ∃ row ∈ p.turnItems.rows, row.threadId = threadId ∧ position ≤ row.position

variable {p : Projection} {threadId : String} {position : Int}

theorem Reaches.lt_nextPosition (h : p.Reaches threadId position) : position < p.nextPosition threadId := by
  obtain ⟨row, hrow, rfl, hle⟩ := h
  exact hle.trans_lt (position_lt_nextPosition hrow)

theorem DistinctPositions.of_subset {p' : Projection} (h : p.DistinctPositions)
    (hsub : ∀ row ∈ p'.turnItems.rows, row ∈ p.turnItems.rows) : p'.DistinctPositions :=
  fun a ha b hb => h a (hsub a ha) b (hsub b hb)

variable {row : TurnItemRow}

private theorem DistinctPositions.set (h : p.DistinctPositions) (hrow : p.PlacesRow row) {a b : TurnItemRow}
    (ha : a = row ∨ a ∈ p.turnItems.rows ∧ a.id ≠ row.id) (hb : b = row ∨ b ∈ p.turnItems.rows ∧ b.id ≠ row.id)
    (hthread : a.threadId = b.threadId) (hposition : a.position = b.position) : a = b := by
  have hother {c : TurnItemRow} (hc : c ∈ p.turnItems.rows) (hid : c.id ≠ row.id)
      (hthread : c.threadId = row.threadId) : c.position ≠ row.position := by
    intro hsame
    cases hfind : p.turnItems.find? row.id with
    | none =>
      have hlt := position_lt_nextPosition hc
      rw [hsame, (hrow.fresh hfind).1, hthread] at hlt
      exact lt_irrefl _ hlt
    | some old =>
      obtain ⟨hold, hplace⟩ := hrow.known old hfind
      have heq := h c hc old (Table.mem_of_find? hfind) (hthread.trans hold) (hsame.trans hplace)
      exact hid (heq ▸ Table.key_of_find? hfind)
  rcases ha with rfl | ⟨ha, haid⟩ <;> rcases hb with rfl | ⟨hb, hbid⟩
  · rfl
  · exact absurd hposition.symm (hother hb hbid hthread.symm)
  · exact absurd hposition (hother ha haid hthread)
  · exact h a ha b hb hthread hposition

/-! ### One event -/

/-- What a batch has done so far to the items of the projection it started from. `marks` says which
positions a thread's items ever had. -/
structure PlacedFrom (marks : String → Int → Prop) (start p : Projection) : Prop where
  distinct : p.DistinctPositions
  reaches : ∀ threadId position, marks threadId position → p.threads.has threadId = true →
    p.Reaches threadId position
  kept : ∀ old ∈ start.turnItems.rows, p.threads.has old.threadId = true → p.Holds old.threadId old.id old.position
  origin : ∀ row ∈ p.turnItems.rows, (∃ old ∈ start.turnItems.rows, old.id = row.id ∧ old.threadId = row.threadId ∧
      old.position = row.position) ∨
    (∀ old ∈ start.turnItems.rows, old.id = row.id → old.threadId ≠ row.threadId) ∧
      ∀ position, marks row.threadId position → position < row.position

variable {marks : String → Int → Prop} {start p p' : Projection} {event : StoredEvent}

private theorem Reaches.applyEvent (h : p.Reaches threadId position) (hplaces : p.PlacesItem event)
    (hthere : ¬ (event.payload.type = .threadDeleted ∧ event.threadId = some threadId))
    (happ : p.applyEvent event = .ok p') : p'.Reaches threadId position := by
  obtain ⟨row, hrow, hthread, hle⟩ := h
  have hholds : p.Holds threadId row.id row.position := ⟨row, Table.find?_key hrow, hthread, rfl⟩
  obtain ⟨row', hfind, hthread', hposition⟩ := hholds.applyEvent hplaces hthere happ
  exact ⟨row', Table.mem_of_find? hfind, hthread', hposition ▸ hle⟩

theorem PlacedFrom.applyEvent (h : PlacedFrom marks start p) (hplaces : p.PlacesItem event)
    (hmarked : ∀ old ∈ start.turnItems.rows, marks old.threadId old.position)
    (hnew : ∀ thread position, event.payload = .threadCreated thread → ¬ marks thread.id position)
    (happ : p.applyEvent event = .ok p') : PlacedFrom marks start p' := by
  have hthere {threadId : String} {position : Int} (hmark : marks threadId position)
      (hhas : p'.threads.has threadId = true) : p.threads.has threadId = true ∧
        ¬ (event.payload.type = .threadDeleted ∧ event.threadId = some threadId) := by
    rcases has_threads_of_applyEvent happ hhas with hkept | ⟨thread, hpay, rfl⟩
    · exact hkept
    · exact absurd hmark (hnew thread position hpay)
  have hreaches : ∀ threadId position, marks threadId position → p'.threads.has threadId = true →
      p'.Reaches threadId position := by
    intro threadId position hmark hhas
    obtain ⟨hhas, hkept⟩ := hthere hmark hhas
    exact (h.reaches threadId position hmark hhas).applyEvent hplaces hkept happ
  have hkept : ∀ old ∈ start.turnItems.rows, p'.threads.has old.threadId = true →
      p'.Holds old.threadId old.id old.position := by
    intro old hold hhas
    obtain ⟨hhas, hkept⟩ := hthere (hmarked old hold) hhas
    exact (h.kept old hold hhas).applyEvent hplaces hkept happ
  rcases itemsPlaced_of_applyEvent hplaces happ with
    hitems | ⟨gone, -, -, hitems⟩ | ⟨written, hwritten, hitems⟩
  · have hsub : ∀ row ∈ p'.turnItems.rows, row ∈ p.turnItems.rows := fun row hrow => hitems ▸ hrow
    exact ⟨h.distinct.of_subset hsub, hreaches, hkept, fun row hrow => h.origin row (hsub row hrow)⟩
  · have hsub : ∀ row ∈ p'.turnItems.rows, row ∈ p.turnItems.rows := fun row hrow => by
      rw [hitems] at hrow
      exact List.mem_of_mem_filter hrow
    exact ⟨h.distinct.of_subset hsub, hreaches, hkept, fun row hrow => h.origin row (hsub row hrow)⟩
  · have hmem {row : TurnItemRow} (hrow : row ∈ p'.turnItems.rows) :
        row = written ∨ row ∈ p.turnItems.rows ∧ row.id ≠ written.id := by
      rw [hitems] at hrow
      exact Table.mem_set.mp hrow
    refine ⟨fun a ha b hb => h.distinct.set hwritten (hmem ha) (hmem hb), hreaches, hkept, ?_⟩
    intro row hrow
    rcases hmem hrow with rfl | ⟨hrow, -⟩
    · cases hfind : p.turnItems.find? row.id with
      | none =>
        obtain ⟨hposition, hhas⟩ := hwritten.fresh hfind
        refine .inr ⟨fun old hold hid hthread => ?_, fun position hmark => ?_⟩
        · obtain ⟨there, hthere, -⟩ := h.kept old hold (hthread ▸ hhas)
          rw [hid, hfind] at hthere
          cases hthere
        · rw [hposition]
          exact (h.reaches _ _ hmark hhas).lt_nextPosition
      | some old =>
        obtain ⟨hthread, hposition⟩ := hwritten.known old hfind
        have hid : old.id = row.id := Table.key_of_find? hfind
        rw [hthread, hposition, ← hid]
        exact h.origin old (Table.mem_of_find? hfind)
    · exact h.origin row hrow

/-! ### A prune -/

/-- Every thread that a prune cuts, and does not delete as a whole, keeps its newest item: it belongs to a
running run, or running runs hold less than the limit. -/
def NewestStays (p : Projection) (at_ : Int) : Prop :=
  ∀ thread ∈ p.crowded, thread.1 ∉ p.expiredThreads at_ →
    MAX_ITEMS_PER_THREAD ≤ ((p.itemRows thread.1).filter (!p.removable ·)).length →
      (p.itemRows thread.1).getLast?.all (!p.removable ·) = true

instance (p : Projection) (at_ : Int) : Decidable (p.NewestStays at_) := by
  unfold NewestStays
  infer_instance

theorem last_not_mem_take {α : Type*} {l : List α} (hnodup : l.Nodup) {a : α}
    (hlast : l.getLast? = some a) {n : Nat} (hn : n < l.length) : a ∉ l.take n := by
  intro htake
  have hdrop : a ∈ l.drop n := by
    refine List.mem_of_getLast? (?_ : (l.drop n).getLast? = some a)
    rw [List.getLast?_drop, if_neg (not_le.mpr hn), hlast]
  exact List.disjoint_take_drop hnodup le_rfl htake hdrop

theorem newest_not_mem_oldestItems {threadId : String} {newest : TurnItemRow}
    (hnewest : (p.itemRows threadId).getLast? = some newest)
    (hcrowded : MAX_ITEMS_PER_THREAD < (p.itemRows threadId).length)
    (hstays : MAX_ITEMS_PER_THREAD ≤ ((p.itemRows threadId).filter (!p.removable ·)).length →
      p.removable newest = false) :
    newest ∉ p.oldestItems threadId ((p.itemRows threadId).length - MAX_ITEMS_PER_THREAD) := by
  intro htake
  have hremovable : p.removable newest = true := (List.mem_filter.mp (List.mem_of_mem_take htake)).2
  have hopen : ((p.itemRows threadId).filter (!p.removable ·)).length < MAX_ITEMS_PER_THREAD := by
    by_contra hle
    rw [hstays (not_lt.mp hle)] at hremovable
    cases hremovable
  have hsplit := List.length_eq_length_filter_add (l := p.itemRows threadId) p.removable
  have hnodup : ((p.itemRows threadId).filter p.removable).Nodup := by
    refine List.Nodup.filter _ ?_
    refine (List.perm_insertionSort _ _).nodup_iff.mpr ?_
    exact p.turnItems.nodup.of_map.filter _
  have hlast : ((p.itemRows threadId).filter p.removable).getLast? = some newest := by
    obtain ⟨before, hbefore⟩ := List.getLast?_eq_some_iff.mp hnewest
    rw [hbefore, List.filter_append, List.filter_cons_of_pos hremovable, List.filter_nil, List.getLast?_concat]
  exact last_not_mem_take hnodup hlast (by omega) htake

theorem exists_newest (hrow : row ∈ p.turnItems.rows) :
    ∃ newest, (p.itemRows row.threadId).getLast? = some newest ∧ row.position ≤ newest.position := by
  have hmem : row ∈ p.itemRows row.threadId := mem_itemRows_iff.mpr ⟨hrow, rfl⟩
  obtain ⟨newest, hnewest⟩ := Option.isSome_iff_exists.mp (List.getLast?_isSome.mpr (List.ne_nil_of_mem hmem))
  refine ⟨newest, hnewest, ?_⟩
  obtain ⟨before, hbefore⟩ := List.getLast?_eq_some_iff.mp hnewest
  have hsorted : (p.itemRows row.threadId).Pairwise (·.position ≤ ·.position) := List.pairwise_insertionSort _ _
  rw [hbefore] at hsorted hmem
  rcases List.mem_append.mp hmem with hmem | hmem
  · exact (List.pairwise_append.mp hsorted).2.2 row hmem newest (List.mem_singleton.mpr rfl)
  · rw [List.mem_singleton.mp hmem]

variable {at_ : Int}

theorem newest_mem_foldl_pruneItems {newest : TurnItemRow} (hstays : p.NewestStays at_)
    (hthere : threadId ∉ p.expiredThreads at_) (hnewest : (p.itemRows threadId).getLast? = some newest) :
    newest ∈ (p.crowded.foldl pruneItems p).itemRows threadId := by
  by_cases hcut : threadId ∈ p.crowded.map (·.1)
  · obtain ⟨before, after, hsplit, hbefore, hafter, hover⟩ := crowded_split hcut
    have hfree := hstays (threadId, (p.itemRows threadId).length)
      (hsplit ▸ List.mem_append_right _ List.mem_cons_self) hthere
    rw [hnewest, Option.all_some, Bool.not_eq_true'] at hfree
    rw [hsplit, List.foldl_append, List.foldl_cons, itemRows_foldl_pruneItems_of_not_mem hafter]
    set q := before.foldl pruneItems p with hq
    have hrows : q.itemRows threadId = p.itemRows threadId := itemRows_foldl_pruneItems_of_not_mem hbefore
    have hremovable : q.removable = p.removable := by
      funext row
      rw [hq, foldl_pruneItems_eq]
      rfl
    have hnot := @newest_not_mem_oldestItems q threadId newest (hrows ▸ hnewest) (hrows ▸ hover)
      (by rw [hrows, hremovable]; exact hfree)
    have hmem : newest ∈ q.itemRows threadId := List.mem_of_getLast? (hrows ▸ hnewest)
    obtain ⟨hstored, hthread⟩ := mem_itemRows_iff.mp hmem
    rw [hrows] at hnot
    exact mem_itemRows_iff.mpr ⟨mem_pruneItems.mpr ⟨hstored, hnot⟩, hthread⟩
  · rw [itemRows_foldl_pruneItems_of_not_mem hcut]
    exact List.mem_of_getLast? hnewest

theorem not_mem_prune_of_removable (hover : MAX_ITEMS_PER_THREAD < (p.itemRows row.threadId).length)
    (hfull : MAX_ITEMS_PER_THREAD ≤ ((p.itemRows row.threadId).filter (!p.removable ·)).length)
    (hremovable : p.removable row = true) : row ∉ (p.prune at_).turnItems.rows := by
  intro hleft
  have hrow := (p.prune_subset at_).2 row hleft
  have hcrowded : (row.threadId, (p.itemRows row.threadId).length) ∈ p.crowded :=
    List.mem_filter.mpr ⟨List.mem_map_of_mem (List.mem_dedup.mpr (List.mem_map_of_mem hrow)), decide_eq_true hover⟩
  obtain ⟨before, after, hsplit, hbefore, -, -⟩ := crowded_split (List.mem_map_of_mem hcrowded)
  rw [prune, (foldl_deleteThread_eq _ _).2, hsplit, List.foldl_append, List.foldl_cons] at hleft
  have hcut := mem_of_mem_foldl_pruneItems (List.mem_of_mem_filter hleft)
  set q := before.foldl pruneItems p with hq
  have hrows : q.itemRows row.threadId = p.itemRows row.threadId := itemRows_foldl_pruneItems_of_not_mem hbefore
  have hsame : q.removable = p.removable := by
    funext row
    rw [hq, foldl_pruneItems_eq]
    rfl
  refine (mem_pruneItems.mp hcut).2 ?_
  have hsum := List.length_eq_length_filter_add (l := p.itemRows row.threadId) p.removable
  rw [oldestItems, hrows, hsame, List.take_of_length_le (by dsimp only; omega)]
  exact List.mem_filter.mpr ⟨mem_itemRows_iff.mpr ⟨hrow, rfl⟩, hremovable⟩

theorem Reaches.prune (h : p.Reaches threadId position) (hstays : p.NewestStays at_)
    (hhas : (p.prune at_).threads.has threadId = true) :
    (p.prune at_).Reaches threadId position := by
  obtain ⟨row, hrow, rfl, hle⟩ := h
  obtain ⟨newest, hnewest, hpast⟩ := exists_newest hrow
  obtain ⟨-, hthere⟩ := (p.prune_subset at_).1 _ hhas
  obtain ⟨hleft, hthread⟩ := mem_itemRows_iff.mp (newest_mem_foldl_pruneItems hstays hthere hnewest)
  refine ⟨newest, ?_, hthread, hle.trans hpast⟩
  rw [Projection.prune, (foldl_deleteThread_eq _ _).2, Table.rows_filter, List.mem_filter]
  exact ⟨hleft, by simpa [hthread] using hthere⟩

end Projection

namespace Ledger

/-! ### The threads of a run -/

def createdIds (written : List StoredEvent) : List String :=
  written.filterMap fun event =>
    match event.payload with
    | .threadCreated thread => some thread.id
    | _ => none

/-- Every thread, and every item's thread, was created by a written event. -/
structure Known (p : Projection) (written : List StoredEvent) : Prop where
  threads : ∀ threadId, p.threads.has threadId = true → threadId ∈ createdIds written
  items : ∀ row ∈ p.turnItems.rows, row.threadId ∈ createdIds written

theorem Known.empty : Known .empty [] :=
  ⟨fun _ hhas => Bool.noConfusion hhas, fun _ hrow => absurd hrow List.not_mem_nil⟩

theorem createdIds_append (written written' : List StoredEvent) :
    createdIds (written ++ written') = createdIds written ++ createdIds written' :=
  List.filterMap_append

variable {p : Projection} {written : List StoredEvent}

theorem Known.applyEvent {p' : Projection} {event : StoredEvent} (h : Known p written) (hplaces : p.PlacesItem event)
    (happ : p.applyEvent event = .ok p') :
    Known p' (written ++ [event]) := by
  have hold {threadId : String} (hmem : threadId ∈ createdIds written) :
      threadId ∈ createdIds (written ++ [event]) := by
    rw [createdIds_append]
    exact List.mem_append_left _ hmem
  constructor
  · intro threadId hhas
    rcases Projection.has_threads_of_applyEvent happ hhas with ⟨hhas, -⟩ | ⟨thread, hpay, rfl⟩
    · exact hold (h.threads threadId hhas)
    · rw [createdIds_append]
      exact List.mem_append_right _ (by simp [createdIds, hpay])
  · intro row hrow
    rcases Projection.itemsPlaced_of_applyEvent hplaces happ with
      hitems | ⟨gone, -, -, hitems⟩ | ⟨row', hwritten, hitems⟩
    · exact hold (h.items row (hitems ▸ hrow))
    · rw [hitems] at hrow
      exact hold (h.items row (List.mem_of_mem_filter hrow))
    · rw [hitems] at hrow
      rcases Table.mem_set.mp hrow with rfl | ⟨hrow, -⟩
      · cases hfind : p.turnItems.find? row.id with
        | none => exact hold (h.threads _ (hwritten.fresh hfind).2)
        | some old =>
          rw [(hwritten.known old hfind).1]
          exact hold (h.items old (Table.mem_of_find? hfind))
      · exact hold (h.items row hrow)

/-! ### Careful steps -/

/-- The event creates no thread under one of these ids. -/
def NewThread (created : List String) (event : StoredEvent) : Prop :=
  match event.payload with
  | .threadCreated thread => thread.id ∉ created
  | _ => True

instance (created : List String) (event : StoredEvent) : Decidable (NewThread created event) := by
  unfold NewThread
  generalize event.payload = payload
  apply @Payload.casesOn _ _ _ _ payload <;> intros <;> infer_instance

/-- Item drafts carry no position but their item's own. -/
def CarriesPlaces (l : Ledger) : StoreOp → Prop
  | .append batch => l.db.BatchMeets (fun db event => db.projection.CarriesPlace event) batch
  | .prune _ => True

instance (l : Ledger) (op : StoreOp) : Decidable (l.CarriesPlaces op) :=
  match op with
  | .append batch => inferInstanceAs (Decidable (l.db.BatchMeets
      (fun db event => db.projection.CarriesPlace event) batch))
  | .prune _ => .isTrue trivial

/-- A batch places its items in their threads and creates no thread a second time; a prune leaves the
newest items. -/
def Careful (l : Ledger) : StoreOp → Prop
  | .append batch => l.db.BatchMeets (fun db event =>
      db.projection.PlacesItem event ∧ NewThread (createdIds l.written) event) batch
  | .prune at_ => l.db.projection.NewestStays at_

instance (l : Ledger) (op : StoreOp) : Decidable (l.Careful op) :=
  match op with
  | .append batch => inferInstanceAs (Decidable (l.db.BatchMeets (fun db event =>
      db.projection.PlacesItem event ∧ NewThread (createdIds l.written) event) batch))
  | .prune at_ => inferInstanceAs (Decidable (l.db.projection.NewestStays at_))

/-- What a step from `l` to `l'` does to positions, in a run that was in `earlier` before. -/
structure Numbered (earlier l l' : Ledger) : Prop where
  /-- No two items of a thread stand at one position. -/
  distinct : l'.db.projection.DistinctPositions
  /-- An item that stays in its thread stays at its position. -/
  kept : ∀ old ∈ l.db.projection.turnItems.rows, ∀ row ∈ l'.db.projection.turnItems.rows,
    row.id = old.id → row.threadId = old.threadId → row.position = old.position
  /-- A new item of a thread stands past every position an item of the thread ever had. -/
  above : ∀ row ∈ l'.db.projection.turnItems.rows,
    (∀ old ∈ l.db.projection.turnItems.rows, old.id = row.id → old.threadId ≠ row.threadId) →
      ∀ past ∈ earlier.db.projection.turnItems.rows, past.threadId = row.threadId → past.position < row.position

/-- What a run from `earlier` keeps for the steps to come. -/
private structure After (earlier l : Ledger) : Prop where
  distinct : l.db.projection.DistinctPositions
  known : Known l.db.projection l.written
  reaches : ∀ past ∈ earlier.db.projection.turnItems.rows, l.db.projection.threads.has past.threadId = true →
      l.db.projection.Reaches past.threadId past.position
  created : ∀ past ∈ earlier.db.projection.turnItems.rows, past.threadId ∈ createdIds l.written

variable {earlier l : Ledger}

theorem After.self (h : After earlier l) : After l l :=
  ⟨h.distinct, h.known, fun row hrow _ => ⟨row, hrow, rfl, le_rfl⟩, h.known.items⟩

private def Marked (earlier l : Ledger) (threadId : String) (position : Int) : Prop :=
  ∃ row, (row ∈ earlier.db.projection.turnItems.rows ∨ row ∈ l.db.projection.turnItems.rows) ∧
    row.threadId = threadId ∧ row.position = position

variable {batch : Batch}

private theorem After.append {db : Db} (h : After earlier l) (hcareful : l.Careful (.append batch))
    (happ : l.db.append batch = .ok (db, written)) :
    After earlier ⟨db, l.written ++ written⟩ ∧ Numbered earlier l ⟨db, l.written ++ written⟩ := by
  have hcreated {threadId : String} {position : Int} (hmark : Marked earlier l threadId position) :
      threadId ∈ createdIds l.written := by
    obtain ⟨row, hrow | hrow, rfl, -⟩ := hmark
    · exact h.created row hrow
    · exact h.known.items row hrow
  obtain ⟨m, hm, hsame⟩ := Db.append_eq_ok happ
  have hstart : Projection.PlacedFrom (Marked earlier l) l.db.projection l.db.projection := by
    refine ⟨h.distinct, ?_, fun old hold _ => ⟨old, Table.find?_key hold, rfl, rfl⟩,
      fun row hrow => .inl ⟨row, hrow, rfl, rfl, rfl⟩⟩
    rintro _ _ ⟨row, hrow | hrow, rfl, rfl⟩ hhas
    · exact h.reaches row hrow hhas
    · exact ⟨row, hrow, rfl, le_rfl⟩
  have hall : Projection.PlacedFrom (Marked earlier l) l.db.projection m.projection ∧
      Known m.projection (l.written ++ written) := by
    refine Fold.traceM_invariant (P := fun (m : Db) (sofar : List StoredEvent) =>
      Projection.PlacedFrom (Marked earlier l) l.db.projection m.projection ∧
        Known m.projection sofar) ?_ ⟨hstart, h.known⟩ hcareful hm
    intro s sofar raw s' event hs hraw hwrite
    obtain ⟨rfl, hevent, -⟩ := Db.writeDraft_projection hwrite
    refine ⟨hs.1.applyEvent hraw.1 (fun old hold => ⟨old, .inr hold, rfl, rfl⟩) ?_ hevent,
      hs.2.applyEvent hraw.1 hevent⟩
    intro thread position hpay hmark
    have hnew := hraw.2
    rw [NewThread, hpay] at hnew
    exact hnew (hcreated hmark)
  rw [← hsame.projection] at hall
  obtain ⟨hplaced, hknown⟩ := hall
  refine ⟨⟨hplaced.distinct, hknown, fun past hpast => ?_, fun past hpast => ?_⟩,
    ⟨hplaced.distinct, fun old hold row hrow hid hthread => ?_, fun row hrow hnew past hpast hthread => ?_⟩⟩
  · exact hplaced.reaches _ _ ⟨past, .inl hpast, rfl, rfl⟩
  · rw [createdIds_append]
    exact List.mem_append_left _ (h.created past hpast)
  · rcases hplaced.origin row hrow with ⟨old', hold', hid', -, hposition⟩ | ⟨hnew, -⟩
    · rw [← hposition, l.db.projection.turnItems.eq_of_key_eq hold' hold (hid'.trans hid)]
    · exact absurd hthread.symm (hnew old hold hid.symm)
  · rcases hplaced.origin row hrow with ⟨old, hold, hid, hsame, -⟩ | ⟨-, hpast'⟩
    · exact absurd hsame (hnew old hold hid)
    · exact hpast' _ ⟨past, .inl hpast, hthread, rfl⟩

private theorem After.prune {at_ : Int} (h : After earlier l) (hcareful : l.Careful (.prune at_)) :
    After earlier { l with db := (l.db.prune at_).1 } ∧ Numbered earlier l { l with db := (l.db.prune at_).1 } := by
  obtain ⟨hthreads, hitems⟩ := l.db.projection.prune_subset at_
  have hdistinct := h.distinct.of_subset hitems
  refine ⟨⟨hdistinct, ⟨fun threadId hhas => ?_, fun row hrow => ?_⟩, fun past hpast hhas => ?_,
    h.created⟩, ⟨hdistinct, fun old hold row hrow hid _ => ?_, fun row hrow hnew => ?_⟩⟩
  · exact h.known.threads threadId (hthreads threadId hhas).1
  · exact h.known.items row (hitems row hrow)
  · exact (h.reaches past hpast (hthreads _ hhas).1).prune hcareful hhas
  · rw [l.db.projection.turnItems.eq_of_key_eq (hitems row hrow) hold hid]
  · exact absurd rfl (hnew row (hitems row hrow) rfl)

variable {l' : Ledger}

private theorem After.step {op : StoreOp} (h : After earlier l) (hcareful : l.Careful op)
    (hstep : l.step op = some l') :
    After earlier l' ∧ Numbered earlier l l' := by
  cases op with
  | append batch =>
    obtain ⟨db, written, happ, rfl⟩ := step_append_eq_some.mp hstep
    exact h.append hcareful happ
  | prune at_ =>
    cases hstep
    exact h.prune hcareful

private theorem After.run (h : After earlier l) (hrun : Runs.Run Ledger.step Careful l l') : After earlier l' :=
  hrun.invariant (P := After earlier) (fun _ _ _ hm hcareful hstep => (hm.step hcareful hstep).1) h

/-- In a run of careful steps the items of a thread stand at different positions, each stays at its own,
and a new one stands past every position an item of the thread ever had. -/
theorem numbered_of_careful {earlier l l' : Ledger} {op : StoreOp}
    (hearlier : Runs.Run step Careful new earlier) (hrun : Runs.Run step Careful earlier l)
    (hcareful : l.Careful op) (hstep : l.step op = some l') : Numbered earlier l l' := by
  have hnew : After new new :=
    ⟨fun _ ha => absurd ha List.not_mem_nil, .empty, fun _ ha => absurd ha List.not_mem_nil,
      fun _ ha => absurd ha List.not_mem_nil⟩
  exact ((hnew.run hearlier).self.run hrun |>.step hcareful hstep).2

def runningBatch : Batch where
  drafts := [createProject (testProject "w1"), createThread (testThread "t1"), startRun "r1" 1]
  ts := 0

/-- Items before a prune and after it. -/
theorem numbered_of_careful_texts : ∃ earlier l l', Runs.exec step Careful new [.append runningBatch,
      .append { drafts := [writeText "i0" none, writeText "i1" (some "r1")], ts := 0 }] = some earlier ∧
    Runs.exec step Careful earlier [.prune 0] = some l ∧
    l.step (.append { drafts := [writeText "i2" none], ts := 0 }) = some l' ∧
    Numbered earlier l l' := by
  have hexec : ((Runs.exec step Careful new [.append runningBatch,
      .append { drafts := [writeText "i0" none, writeText "i1" (some "r1")], ts := 0 }]).bind
        fun earlier => (Runs.exec step Careful earlier [.prune 0]).bind fun l =>
          if l.Careful (.append { drafts := [writeText "i2" none], ts := 0 }) then
            l.step (.append { drafts := [writeText "i2" none], ts := 0 })
          else none).isSome = true := by decide
  obtain ⟨l', hexec⟩ := Option.isSome_iff_exists.mp hexec
  obtain ⟨earlier, hearlier, hexec⟩ := Option.bind_eq_some_iff.mp hexec
  obtain ⟨l, hl, hexec⟩ := Option.bind_eq_some_iff.mp hexec
  split_ifs at hexec with hcareful
  exact ⟨earlier, l, l', hearlier, hl, hexec,
    numbered_of_careful (Runs.run_of_exec hearlier) (Runs.run_of_exec hl) hcareful hexec⟩

/-! ### A position that is given twice -/

theorem writeDraft_text (ts : Int) {db : Db} {id : String} {runId : Option String}
    (hthread : db.projection.threads.has "t1" = true)
    (hfresh : db.projection.turnItems.find? id = none) (hzero : db.projection.ItemsFromZero) :
    ∃ db' event row, Db.writeDraft {} ts db (writeText id runId) = .ok (db', event) ∧
      db'.projection = { db.projection with turnItems := db.projection.turnItems.set row } ∧
      row.id = id ∧ row.threadId = "t1" ∧ row.runId = runId ∧
      row.position = db.projection.nextPosition "t1" ∧ db'.projection.ItemsFromZero := by
  have hplace : ((db.projection.turnItems.find? id).map (·.position)).getD
      (db.projection.nextPosition "t1") = db.projection.nextPosition "t1" := by
    rw [hfresh]
    rfl
  have happ : ∃ row, db.projection.applyEvent (db.stamp {} ts (writeText id runId)) =
      .ok { db.projection with turnItems := db.projection.turnItems.set row } ∧
      row.id = id ∧ row.threadId = "t1" ∧ row.runId = runId ∧
      row.position = db.projection.nextPosition "t1" :=
    ⟨_, Projection.upsertTurnItem_eq_ok.mpr ⟨hthread, rfl⟩, rfl, rfl, rfl, hplace⟩
  obtain ⟨row, happ, hid, hrowThread, hrun, hposition⟩ := happ
  obtain ⟨db', hwrite, hprojection⟩ := Db.writeDraft_of_applyEvent (by simp [writeText, Payload.type]) happ
  refine ⟨db', _, row, hwrite, hprojection, hid, hrowThread, hrun, hposition, ?_⟩
  refine hzero.applyEvent ⟨Projection.carriesPlace_stamp ?_, ?_⟩ (hprojection ▸ happ)
  · rintro item ordinal hpay hord
    cases hpay
    cases hord
  · intro row hrow
    cases hfresh.symm.trans hrow

theorem traceM_texts (ts : Int) {ids : List String} (hnodup : ids.Nodup) {db : Db}
    (hthread : db.projection.threads.has "t1" = true)
    (hfresh : ∀ id ∈ ids, db.projection.turnItems.find? id = none)
    (hzero : db.projection.ItemsFromZero) : ∃ db' written items,
      Fold.traceM (Db.writeDraft {} ts) db (ids.map (writeText · (some "r1"))) = .ok (db', written) ∧
      db'.projection = { db.projection with turnItems := items } ∧
      items.rows.length = db.projection.turnItems.rows.length + ids.length ∧
      (∀ row ∈ items.rows, row ∈ db.projection.turnItems.rows ∨
        row.id ∈ ids ∧ row.threadId = "t1" ∧ row.runId = some "r1") ∧
      db'.projection.ItemsFromZero := by
  induction ids generalizing db with
  | nil => exact ⟨db, [], _, rfl, rfl, rfl, fun _ hrow => .inl hrow, hzero⟩
  | cons id ids ih =>
    obtain ⟨hnew, hnodup⟩ := List.nodup_cons.mp hnodup
    obtain ⟨m, event, row, hwrite, hm, hid, hrowThread, hrun, -, hzero'⟩ :=
      @writeDraft_text ts db id (some "r1") hthread (hfresh id List.mem_cons_self) hzero
    have hrows : m.projection.turnItems.rows = db.projection.turnItems.rows ++ [row] := by
      rw [hm]
      exact Table.rows_set_of_find?_eq_none (hid.symm ▸ hfresh id List.mem_cons_self)
    obtain ⟨db', written, items, htrace, hprojection, hlength, horigin, hlast⟩ := ih hnodup
      (by rw [hm]; exact hthread)
      (fun other hother => by
        rw [hm]
        refine (Table.find?_set_of_ne _ ?_).trans (hfresh other (List.mem_cons_of_mem id hother))
        rintro hsame
        exact hnew (hid ▸ hsame ▸ hother))
      hzero'
    refine ⟨db', event :: written, items, ?_, ?_, ?_, fun row' hrow' => ?_, hlast⟩
    · exact Fold.traceM_cons_eq_ok.mpr ⟨m, event, written, hwrite, htrace, rfl⟩
    · rw [hprojection, hm]
    · rw [hlength, hrows, List.length_append, List.length_cons, List.length_cons]
      simp only [List.length_nil]
      omega
    · rcases horigin row' hrow' with hold | ⟨hmem, hkept⟩
      · rw [hrows, List.mem_append, List.mem_singleton] at hold
        rcases hold with hold | rfl
        · exact .inl hold
        · exact .inr ⟨hid ▸ List.mem_cons_self, hrowThread, hrun⟩
      · exact .inr ⟨List.mem_cons_of_mem id hmem, hkept⟩

theorem exists_ids (n : Nat) : ∃ ids : List String, ids.Nodup ∧ ids.length = n ∧
    ∀ id : String, (∃ c ∈ id.toList, c ≠ 'x') → id ∉ ids := by
  refine ⟨(List.range n).map fun k => String.ofList (List.replicate k 'x'), ?_, by simp, ?_⟩
  · refine List.Nodup.map (fun a b hab => ?_) List.nodup_range
    have hlist := congrArg (fun s : String => s.toList.length) hab
    simpa using hlist
  · rintro id ⟨c, hc, hx⟩ hmem
    obtain ⟨k, -, rfl⟩ := List.mem_map.mp hmem
    rw [String.toList_ofList] at hc
    exact hx (List.eq_of_mem_replicate hc)

theorem carriesPlaces_texts (l : Ledger) (h : ∀ raw ∈ batch.drafts, ∃ id runId, raw = writeText id runId) :
    l.CarriesPlaces (.append batch) := by
  refine Fold.along_of_forall fun db raw hraw => Projection.carriesPlace_stamp ?_
  obtain ⟨id, runId, rfl⟩ := h raw hraw
  rintro item ordinal hpay hord
  cases hpay
  cases hord

theorem carriesPlaces_map (l : Ledger) (ids : List String) :
    l.CarriesPlaces (.append { drafts := ids.map (writeText · (some "r1")), ts := 0 }) := by
  refine carriesPlaces_texts l fun raw hraw => ?_
  obtain ⟨id, -, rfl⟩ := List.mem_map.mp hraw
  exact ⟨_, _, rfl⟩

/-- The thread `t1` has a running run and no items, and is not archived. -/
private def running (l : Ledger) : Bool :=
  decide (l.db.projection.threads.has "t1" = true ∧ l.db.projection.turnItems.rows = [] ∧
    (l.db.projection.runs.find? "r1").any (·.status = .running) = true ∧
    l.db.projection.expiredThreads 0 = [])

/-- A running run has as many items as a prune leaves, and a loose item follows them. -/
private structure Full (p : Projection) (loose : TurnItemRow) (run : List TurnItemRow) : Prop where
  rows : p.turnItems.rows = run ++ [loose]
  limit : run.length = MAX_ITEMS_PER_THREAD
  thread : ∀ row ∈ p.turnItems.rows, row.threadId = "t1"
  ofRun : ∀ row ∈ run, row.runId = some "r1"
  running : (p.runs.find? "r1").any (·.status = .running) = true
  loose : loose.runId = none

theorem Full.not_mem_prune {loose : TurnItemRow} {run : List TurnItemRow} (h : Full p loose run) :
    loose ∉ (p.prune 0).turnItems.rows := by
  have hthread : loose.threadId = "t1" := h.thread loose (by rw [h.rows]; simp)
  have hall : p.turnItems.rows.filter (·.threadId = "t1") = p.turnItems.rows :=
    List.filter_eq_self.mpr fun row hrow => decide_eq_true (h.thread row hrow)
  have hlength : (p.itemRows "t1").length = MAX_ITEMS_PER_THREAD + 1 := by
    rw [Projection.itemRows, hall, List.length_insertionSort, h.rows, List.length_append, h.limit,
      List.length_singleton]
  have hopen : ∀ row ∈ run, (!p.removable row) = true := fun row hrow => by
    simp [Projection.removable, h.ofRun row hrow, h.running]
  have hfull : MAX_ITEMS_PER_THREAD ≤ ((p.itemRows "t1").filter (!p.removable ·)).length := by
    rw [Projection.itemRows, hall, ((List.perm_insertionSort _ _).filter _).length_eq, h.rows,
      List.filter_append, List.filter_eq_self.mpr hopen, List.length_append, h.limit]
    exact Nat.le_add_right _ _
  refine Projection.not_mem_prune_of_removable ?_ ?_ ?_
  · rw [hthread, hlength]
    exact Nat.lt_succ_self _
  · rw [hthread]
    exact hfull
  · simp [Projection.removable, h.loose]

theorem exists_full : ∃ filled loose run, Runs.Run step CarriesPlaces new filled ∧
    Full filled.db.projection loose run ∧ filled.db.projection.ItemsFromZero ∧
    (∀ row ∈ run, row.position < loose.position) ∧
    filled.db.projection.threads.has "t1" = true ∧ filled.db.projection.expiredThreads 0 = [] ∧
    filled.db.projection.turnItems.find? "again" = none := by
  have hexec : (Runs.exec step CarriesPlaces new [.append runningBatch]).any running = true := by
    decide
  obtain ⟨l, hrun, hl⟩ := Runs.exists_run_of_exec hexec
  obtain ⟨hthread, hempty, hrunning, hshelf⟩ := of_decide_eq_true hl
  have hfind (id : String) : l.db.projection.turnItems.find? id = none := by
    rw [Table.find?_eq_none_iff, hempty]
    exact fun _ hrow => absurd hrow List.not_mem_nil
  obtain ⟨ids, hnodup, hcount, hother⟩ := exists_ids MAX_ITEMS_PER_THREAD
  obtain ⟨db₁, written₁, items, htexts, hp₁, hlength, horigin, hzero₁⟩ :=
    @traceM_texts 0 ids hnodup l.db hthread
      (fun id _ => hfind id) fun row hrow => absurd (hempty ▸ hrow) List.not_mem_nil
  have hitems : ∀ row ∈ items.rows, row.id ∈ ids ∧ row.threadId = "t1" ∧ row.runId = some "r1" := fun row hrow =>
    (horigin row hrow).resolve_left (by rw [hempty]; exact List.not_mem_nil)
  have hfresh {id : String} (hid : ∃ c ∈ id.toList, c ≠ 'x') : items.find? id = none := by
    rw [Table.find?_eq_none_iff]
    rintro row hrow rfl
    exact hother _ hid (hitems row hrow).1
  obtain ⟨db₂, event, loose, hloose, hp₂, hid, hlooseThread, hlooseRun, hposition, hzero₂⟩ :=
    @writeDraft_text 0 db₁ "loose" none (by rw [hp₁]; exact hthread)
      (by rw [hp₁]; exact hfresh ⟨'l', by simp, by simp⟩) hzero₁
  have hfull : db₂.projection = { l.db.projection with turnItems := items.set loose } := by
    rw [hp₂, hp₁]
  have hrows : db₂.projection.turnItems.rows = items.rows ++ [loose] := by
    rw [hfull]
    exact Table.rows_set_of_find?_eq_none (hid.symm ▸ hfresh ⟨'l', by simp, by simp⟩)
  let texts := ids.map (writeText · (some "r1"))
  have hstep₁ : l.step (.append { drafts := texts, ts := 0 }) = some ⟨db₁, l.written ++ written₁⟩ :=
    step_append_eq_some.mpr ⟨_, _, Db.append_of_traceM htexts, rfl⟩
  have hstep₂ : (⟨db₁, l.written ++ written₁⟩ : Ledger).step (.append
      { drafts := [writeText "loose" none], ts := 0 }) = some ⟨db₂, l.written ++ written₁ ++ [event]⟩ :=
    step_append_eq_some.mpr ⟨_, _, Db.append_of_traceM (Fold.traceM_cons_eq_ok.mpr ⟨_, _, _, hloose, rfl, rfl⟩), rfl⟩
  refine ⟨⟨db₂, l.written ++ written₁ ++ [event]⟩, loose, items.rows, ?_, ?_, hzero₂, ?_, ?_, ?_, ?_⟩
  · exact .next (.next hrun (carriesPlaces_map l ids) hstep₁)
      (carriesPlaces_texts _ fun raw hraw => ⟨_, _, List.mem_singleton.mp hraw⟩) hstep₂
  · refine ⟨hrows, ?_, fun row hrow => ?_, fun row hrow => (hitems row hrow).2.2, ?_, hlooseRun⟩
    · rw [hlength, hempty, hcount]
      exact Nat.zero_add _
    · rw [hrows, List.mem_append, List.mem_singleton] at hrow
      rcases hrow with hrow | rfl
      · exact (hitems row hrow).2.1
      · exact hlooseThread
    · rw [hfull]
      exact hrunning
  · intro row hrow
    have hstored : row ∈ db₁.projection.turnItems.rows := by rw [hp₁]; exact hrow
    rw [hposition]
    exact (hitems row hrow).2.1 ▸ Projection.position_lt_nextPosition hstored
  · rw [hfull]
    exact hthread
  · rw [hfull]
    exact hshelf
  · rw [hfull]
    exact (Table.find?_set_of_ne _ (by rw [hid]; decide)).trans (hfresh ⟨'a', by simp, by simp⟩)

/-- A prune takes the newest item of a thread whose running run fills it up to the limit, and the next
item of the thread gets its position. -/
theorem position_reused : ¬ ∀ (earlier l l' : Ledger) (op : StoreOp), Runs.Run step CarriesPlaces new earlier →
      Runs.Run step CarriesPlaces earlier l → l.CarriesPlaces op → l.step op = some l' →
      Numbered earlier l l' := by
  intro hclaim
  obtain ⟨filled, loose, run, hrun, hfull, hzero, hbelow, hthread, hshelf, hagain⟩ := exists_full
  let cut : Ledger := { filled with db := (filled.db.prune 0).1 }
  have hloose : loose ∈ filled.db.projection.turnItems.rows := by
    rw [hfull.rows]
    exact List.mem_append_right _ (List.mem_singleton.mpr rfl)
  have hsub : ∀ row ∈ cut.db.projection.turnItems.rows, row ∈ filled.db.projection.turnItems.rows :=
    (filled.db.projection.prune_subset 0).2
  have hleft : ∀ row ∈ cut.db.projection.turnItems.rows, row ∈ run := by
    intro row hrow
    have hstored := hsub row hrow
    rw [hfull.rows, List.mem_append, List.mem_singleton] at hstored
    rcases hstored with hstored | rfl
    · exact hstored
    · exact absurd hrow hfull.not_mem_prune
  have hcutThread : cut.db.projection.threads.has "t1" = true := by
    change (filled.db.projection.prune 0).threads.has "t1" = true
    rw [Projection.prune, hshelf, List.foldl_nil, Projection.foldl_pruneItems_eq]
    exact hthread
  have hcutAgain : cut.db.projection.turnItems.find? "again" = none := by
    rw [Table.find?_eq_none_iff] at hagain ⊢
    exact fun row hrow => hagain row (hsub row hrow)
  obtain ⟨db, event, again, hwrite, hp, hid, hagainThread, -, hposition, -⟩ :=
    @writeDraft_text 0 cut.db "again" none hcutThread hcutAgain fun row hrow => hzero row (hsub row hrow)
  have hstep : cut.step (.append { drafts := [writeText "again" none], ts := 0 }) =
      some ⟨db, cut.written ++ [event]⟩ :=
    step_append_eq_some.mpr ⟨_, _, Db.append_of_traceM (Fold.traceM_cons_eq_ok.mpr ⟨_, _, _, hwrite, rfl, rfl⟩), rfl⟩
  have hnumbered := hclaim filled cut _ _ hrun (.next (a := .prune 0) .refl trivial rfl)
    (carriesPlaces_texts cut fun raw hraw => ⟨_, _, List.mem_singleton.mp hraw⟩) hstep
  have hpast : loose.position < again.position := by
    refine hnumbered.above again ?_ ?_ loose hloose ?_
    · rw [hp]
      exact Table.mem_set.mpr (.inl rfl)
    · intro old hold hsame
      exact absurd (hsame.trans hid) (Table.find?_eq_none_iff.mp hcutAgain old hold)
    · rw [hagainThread]
      exact hfull.thread loose hloose
  have hreused : again.position ≤ loose.position := by
    rw [hposition]
    exact Projection.nextPosition_le (hzero loose hloose) fun row hrow _ =>
      hbelow row (hleft row hrow)
  omega

end Ledger

end Sightr
