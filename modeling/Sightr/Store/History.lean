import Mathlib.Algebra.Group.Int.Defs
import Mathlib.Algebra.Group.Nat.Defs
import Mathlib.Data.List.Dedup
import Sightr.Lib.Base64
import Sightr.Lib.Pages
import Sightr.Store.Items
import Sightr.Store.Snapshot

/-!
# The timeline in pages

`snapshotThread` gives a thread's newest items, `historyPage` of `bridge/threads/store.ts` what is older,
page by page. A page is the range of positions from its start to the cursor; where the start lies
depends on the newest runs below the cursor, or on a number of loose items once no run is left. The
cursor is the start of the page before, as base64 text of at most fifteen digits.
-/

namespace Sightr

open Keyed (Table)

/-! ### The cursor -/

/-- How many loose items one history page holds when no run is older than the cursor. -/
def LOOSE_PAGE_ITEMS : Nat := 200

def MAX_SAFE_INTEGER : Int := 9007199254740991

/-- The opaque history cursor: base64 of an item position. -/
def encodeHistoryCursor (position : Int) : String := String.ofList (Base64.btoa (toString position).toList)

/-- The position a history cursor names: one to fifteen digits, in base64. -/
def decodeHistoryCursor (cursor : String) : Option Int :=
  match Base64.atob cursor.toList with
  | none => none
  | some raw =>
    if 1 ≤ raw.length ∧ raw.length ≤ 15 ∧ raw.all Char.isDigit then
      some (Nat.ofDigitChars 10 raw 0)
    else none

/-! ### One page -/

/-- A run and those of its items that are in the page. -/
structure HistoryRun where
  run : Run
  items : List TurnItem
  deriving DecidableEq

structure HistoryPage where
  runs : List HistoryRun
  loose : List TurnItem
  nextCursor : Option String
  deriving DecidableEq

/-- The page's items, by run and then the loose ones. -/
def HistoryPage.items (page : HistoryPage) : List TurnItem := page.runs.flatMap (·.items) ++ page.loose

namespace Projection

variable (p : Projection)

def itemsBelow (threadId : String) (below : Int) : List TurnItemRow :=
  (p.itemRows threadId).filter (·.position < below)

/-- The runs of the thread's items below a position, the one with the newest item first. -/
def pageRunIds (threadId : String) (below : Int) (limit : Nat) : List String :=
  let rows := p.itemsBelow threadId below
  let newest (id : String) : Int := ((rows.filter (·.runId = some id)).map (·.position)).max?.getD 0
  ((rows.filterMap (·.runId)).dedup.insertionSort fun a b => newest b ≤ newest a).take limit

/-- Where the page below a position starts when it holds those runs. -/
def runsPageFrom (runIds : List String) (below : Int) : Int :=
  if runIds = [] then below
  else
    ((p.turnItems.rows.filter fun row =>
      row.position < below && row.runId.any (runIds.contains ·)).map (·.position)).min?.getD below

def pageFrom (threadId : String) (below : Int) (limit : Nat) : Int :=
  let start := p.runsPageFrom (p.pageRunIds threadId below limit) below
  if (p.itemsBelow threadId start).any (·.runId.isSome) then start
  else
    -- Nothing but loose items is older: take them into this page.
    (((p.itemsBelow threadId start).reverse.take LOOSE_PAGE_ITEMS).map (·.position)).min?.getD start

def runOf (row : TurnItemRow) : Option Run := row.runId.bind p.runs.find?

/-- The items in the order of first appearance of their runs, under the run as a snapshot gives it. -/
def groupByRun (rows : List TurnItemRow) : List HistoryRun :=
  ((rows.filterMap p.runOf).reverse.dedup.reverse).map fun run =>
    { run := p.withCheckpoint run, items := (rows.filter (p.runOf · = some run)).map (·.body) }

end Projection

/-- The thread's items below `before`, from a start the newest `limit` runs decide. -/
def Db.historyPage (db : Db) (threadId : String) (before : Option Int) (limit : Nat) : HistoryPage :=
  let p := db.projection
  let below := before.getD MAX_SAFE_INTEGER
  let start := p.pageFrom threadId below limit
  let rows := (p.itemRows threadId).filter fun row =>
    decide (start ≤ row.position) && decide (row.position < below)
  { runs := (p.groupByRun rows).insertionSort fun a b => a.run.ordinal ≤ b.run.ordinal
    loose := (rows.filter fun row => (p.runOf row).isNone).map (·.body)
    nextCursor :=
      if 0 < (p.itemsBelow threadId start).length then some (encodeHistoryCursor start) else none }

/-- `historyRoute` with a cursor: one it cannot read gets an empty page. -/
def Db.historyAt (db : Db) (threadId : String) (cursor : String) (limit : Nat) : HistoryPage :=
  match decodeHistoryCursor cursor with
  | none => { runs := [], loose := [], nextCursor := none }
  | some before => db.historyPage threadId (some before) limit

/-! ### A snapshot and the calls after it -/

/-- A client that takes a thread's snapshot and then one page after another. -/
structure HistoryReader where
  threadId : String
  /-- The store at the snapshot, and at each call after it. -/
  store : Nat → Db
  limit : Nat → Nat
  snapshot : ThreadSnapshot

namespace HistoryReader

variable (r : HistoryReader)

def call (k : Nat) (cursor : String) : HistoryPage := (r.store (k + 1)).historyAt r.threadId cursor (r.limit k)

def cursor : Nat → Option String
  | 0 => r.snapshot.historyCursor.map encodeHistoryCursor
  | k + 1 => (cursor k).bind fun cursor => (r.call k cursor).nextCursor

/-- The items of the `k`-th page; none once there is no cursor. -/
def pageItems (k : Nat) : List TurnItem := (r.cursor k).elim [] fun cursor => (r.call k cursor).items

/-- The items of the snapshot and of the first `n` pages. -/
def returned (n : Nat) : List TurnItem := r.snapshot.items ++ (List.range n).flatMap r.pageItems

end HistoryReader

/-! ### Cursors that can be read back -/

def FitsCursor (position : Int) : Prop := 0 ≤ position ∧ position < 10 ^ 15

instance (position : Int) : Decidable (FitsCursor position) := inferInstanceAs (Decidable (_ ∧ _))

theorem decode_encodeHistoryCursor_nat (n : Nat) :
    decodeHistoryCursor (encodeHistoryCursor n) = if n < 10 ^ 15 then some (n : Int) else none := by
  have htext : (toString (n : Int)).toList = Nat.toDigits 10 n := by
    change (toString n).toList = Nat.toDigits 10 n
    rw [Nat.toString_eq_repr, Nat.toList_repr]
  have hdigit : ∀ c ∈ Nat.toDigits 10 n, c.isDigit = true := fun c hc =>
    Nat.isDigit_of_mem_toDigits (by decide) (by decide) hc
  have hbyte : ∀ c ∈ Nat.toDigits 10 n, c.toNat < 256 := by
    intro c hc
    have hc := hdigit c hc
    rw [Char.isDigit, Bool.and_eq_true, decide_eq_true_eq, decide_eq_true_eq] at hc
    have hle : c.toNat ≤ 57 := UInt32.le_iff_toNat_le.mp hc.2
    omega
  have hlength : (Nat.toDigits 10 n).length ≤ 15 ↔ n < 10 ^ 15 := Nat.length_toDigits_le_iff (by decide) (by decide)
  have hpos : 1 ≤ (Nat.toDigits 10 n).length := Nat.length_toDigits_pos
  have hall : (Nat.toDigits 10 n).all Char.isDigit = true := List.all_eq_true.mpr hdigit
  simp only [decodeHistoryCursor, encodeHistoryCursor, String.toList_ofList, htext,
    Base64.atob_btoa hbyte, hlength, hpos, hall, and_true, true_and, Nat.ofDigitChars_ten_toDigits]

variable {position : Int}

theorem decode_encodeHistoryCursor (h : FitsCursor position) :
    decodeHistoryCursor (encodeHistoryCursor position) = some position := by
  obtain ⟨n, rfl⟩ := Int.eq_ofNat_of_zero_le h.1
  rw [decode_encodeHistoryCursor_nat, if_pos (by exact_mod_cast h.2)]

/-! ### Where a page starts -/

theorem min?_getD_spec (l : List Int) (d : Int) :
    l = [] ∧ l.min?.getD d = d ∨ l.min?.getD d ∈ l ∧ ∀ x ∈ l, l.min?.getD d ≤ x := by
  cases hmin : l.min? with
  | none => exact .inl ⟨List.min?_eq_none_iff.mp hmin, rfl⟩
  | some m => exact .inr (List.min?_eq_some_iff.mp hmin)

namespace Projection

variable {p : Projection} {threadId : String} {below : Int} {limit : Nat}

theorem mem_itemsBelow {row : TurnItemRow} : row ∈ p.itemsBelow threadId below ↔
    row ∈ p.turnItems.rows ∧ row.threadId = threadId ∧ row.position < below := by
  simp [itemsBelow, itemRows, and_assoc]

theorem runsPageFrom_spec (p : Projection) (runIds : List String) (below : Int) :
    p.runsPageFrom runIds below = below ∨ (∃ row ∈ p.turnItems.rows, row.position = p.runsPageFrom runIds below) ∧
        p.runsPageFrom runIds below < below := by
  unfold runsPageFrom
  split_ifs with hnone
  · exact .inl rfl
  · rcases min?_getD_spec ((p.turnItems.rows.filter fun row =>
        row.position < below && row.runId.any (runIds.contains ·)).map (·.position)) below with
      ⟨-, hbelow⟩ | ⟨hmem, -⟩
    · exact .inl hbelow
    · obtain ⟨row, hrow, hposition⟩ := List.mem_map.mp hmem
      obtain ⟨hrow, hlt⟩ := List.mem_filter.mp hrow
      rw [Bool.and_eq_true, decide_eq_true_eq] at hlt
      exact .inr ⟨⟨row, hrow, hposition⟩, hposition ▸ hlt.1⟩

theorem pageFrom_start (p : Projection) (threadId : String) (below : Int) (limit : Nat) :
    let start := p.runsPageFrom (p.pageRunIds threadId below limit) below
    p.pageFrom threadId below limit = start ∧ ((p.itemsBelow threadId start).any (·.runId.isSome) = true ∨
          p.itemsBelow threadId start = []) ∨
      ∃ row ∈ p.itemsBelow threadId start, row.position = p.pageFrom threadId below limit := by
  intro start
  unfold pageFrom
  dsimp only
  split_ifs with holder
  · exact .inl ⟨rfl, .inl holder⟩
  · rcases min?_getD_spec (((p.itemsBelow threadId start).reverse.take LOOSE_PAGE_ITEMS).map
        (·.position)) start with ⟨hnone, hsame⟩ | ⟨hmem, -⟩
    · refine .inl ⟨hsame, .inr ?_⟩
      simpa [LOOSE_PAGE_ITEMS] using hnone
    · obtain ⟨row, hrow, hposition⟩ := List.mem_map.mp hmem
      exact .inr ⟨row, List.mem_reverse.mp (List.mem_of_mem_take hrow), hposition⟩

theorem pageFrom_spec (p : Projection) (threadId : String) (below : Int) (limit : Nat) :
    p.pageFrom threadId below limit = below ∨
      (∃ row ∈ p.turnItems.rows, row.position = p.pageFrom threadId below limit) ∧
        p.pageFrom threadId below limit < below := by
  have hruns := runsPageFrom_spec p (p.pageRunIds threadId below limit) below
  rcases p.pageFrom_start threadId below limit with ⟨hsame, -⟩ | ⟨row, hrow, hposition⟩
  · rw [hsame]
    exact hruns
  · obtain ⟨hstored, -, hlt⟩ := mem_itemsBelow.mp hrow
    refine .inr ⟨⟨row, hstored, hposition⟩, ?_⟩
    rw [← hposition]
    rcases hruns with hruns | ⟨-, hruns⟩ <;> omega

theorem mem_pageRunIds {id : String} (h : id ∈ p.pageRunIds threadId below limit) :
    ∃ row ∈ p.itemsBelow threadId below, row.runId = some id := by
  have hsorted := List.mem_of_mem_take h
  simpa only [List.mem_insertionSort, List.mem_dedup, List.mem_filterMap] using hsorted

theorem loose_of_pageRunIds (hlimit : 1 ≤ limit) (h : p.pageRunIds threadId below limit = []) :
    ∀ row ∈ p.itemsBelow threadId below, row.runId = none := by
  unfold pageRunIds at h
  rw [List.take_eq_nil_iff] at h
  rcases h with h | h
  · omega
  · intro row hrow
    by_contra hsome
    obtain ⟨id, hid⟩ := Option.ne_none_iff_exists'.mp hsome
    have hmem : id ∈ (p.itemsBelow threadId below).filterMap (·.runId) := List.mem_filterMap.mpr ⟨row, hrow, hid⟩
    have hnone := List.eq_nil_iff_forall_not_mem.mp h id
    simp only [List.mem_insertionSort, List.mem_dedup] at hnone
    exact hnone hmem

theorem pageFrom_lt (hlimit : 1 ≤ limit) (hitems : p.itemsBelow threadId below ≠ []) :
    p.pageFrom threadId below limit < below := by
  by_cases hnone : p.pageRunIds threadId below limit = []
  · have hruns : p.runsPageFrom (p.pageRunIds threadId below limit) below = below := by
      rw [runsPageFrom, if_pos hnone]
    have hpage := p.pageFrom_start threadId below limit
    rw [hruns] at hpage
    rcases hpage with ⟨-, hany | hempty⟩ | ⟨row, hrow, hposition⟩
    · obtain ⟨row, hrow, hsome⟩ := List.any_eq_true.mp hany
      simp [loose_of_pageRunIds hlimit hnone row hrow] at hsome
    · exact absurd hempty hitems
    · exact hposition ▸ (mem_itemsBelow.mp hrow).2.2
  · obtain ⟨id, hid⟩ := List.exists_mem_of_ne_nil _ hnone
    obtain ⟨row, hrow, hrun⟩ := mem_pageRunIds hid
    obtain ⟨hstored, -, hlt⟩ := mem_itemsBelow.mp hrow
    have hruns : p.runsPageFrom (p.pageRunIds threadId below limit) below < below := by
      rw [runsPageFrom, if_neg hnone]
      rcases min?_getD_spec ((p.turnItems.rows.filter fun row => row.position < below &&
          row.runId.any ((p.pageRunIds threadId below limit).contains ·)).map (·.position)) below with
        ⟨hempty, -⟩ | ⟨-, hleast⟩
      · rw [List.map_eq_nil_iff, List.filter_eq_nil_iff] at hempty
        exact absurd (by simp [hlt, hrun, hid]) (hempty row hstored)
      · refine (hleast row.position (List.mem_map_of_mem (List.mem_filter.mpr ⟨hstored, ?_⟩))).trans_lt hlt
        simp [hlt, hrun, hid]
    rcases p.pageFrom_start threadId below limit with ⟨hsame, -⟩ | ⟨row, hrow, hposition⟩
    · exact hsame ▸ hruns
    · have := (mem_itemsBelow.mp hrow).2.2
      omega

/-! ### What a page holds -/

theorem groupByRun_items (p : Projection) (rows : List TurnItemRow) : (((p.groupByRun rows).flatMap (·.items)) ++
      (rows.filter fun row => (p.runOf row).isNone).map (·.body)).Perm (rows.map (·.body)) := by
  have hgroups : (p.groupByRun rows).flatMap (·.items) =
      (((rows.filterMap p.runOf).reverse.dedup.reverse).flatMap fun run =>
        rows.filter (p.runOf · = some run)).map (·.body) := by
    rw [groupByRun, List.flatMap_map, List.map_flatMap]
  rw [hgroups, ← List.map_append]
  refine (Pages.flatMap_filter_perm (List.nodup_reverse.mpr (List.nodup_dedup _)) rows ?_).map _
  intro row hrow run hrun
  rw [List.mem_reverse, List.mem_dedup, List.mem_reverse, List.mem_filterMap]
  exact ⟨row, hrow, hrun⟩

end Projection

theorem Db.historyPage_items (db : Db) (threadId : String) (before : Int) (limit : Nat) :
    (db.historyPage threadId (some before) limit).items.Perm (((db.projection.itemRows threadId).filter fun row =>
        decide (db.projection.pageFrom threadId before limit ≤ row.position) &&
          decide (row.position < before)).map (·.body)) := by
  refine List.Perm.trans ?_ (Projection.groupByRun_items db.projection _)
  exact ((List.perm_insertionSort _ _).flatMap_right _).append_right _

/-! ### Items that stay in place -/

/-- The event places its item and does not delete the thread. -/
def KeepsItems (threadId : String) (db : Db) (event : StoredEvent) : Prop :=
  db.projection.PlacesItem event ∧ ¬ (event.payload.type = .threadDeleted ∧ event.threadId = some threadId)

instance (threadId : String) (db : Db) (event : StoredEvent) : Decidable (KeepsItems threadId db event) :=
  inferInstanceAs (Decidable (_ ∧ _))

/-- The second store came from the first one by batches that leave the thread's items in place. -/
def Appended (threadId : String) (db db' : Db) : Prop :=
  ∃ batches written, db.appends batches = .ok (db', written) ∧ db.Meets (KeepsItems threadId) batches

variable {db db' : Db} {threadId id : String}

private theorem Projection.Holds.appended (h : db.projection.Holds threadId id position)
    (happ : Appended threadId db db') :
    db'.projection.Holds threadId id position := by
  obtain ⟨batches, written, happends, hkeeps⟩ := happ
  exact Db.appends_invariant (P := fun db _ => db.projection.Holds threadId id position) (w := [])
    (fun _ _ _ _ _ _ _ hs hC hwrite =>
      hs.applyEvent hC.1 hC.2 (Db.writeDraft_projection hwrite).2.1)
    (fun _ _ _ hsame hs => hsame.projection ▸ hs) h hkeeps happends

theorem itemsFromZero_appended (h : db.projection.ItemsFromZero) (happ : Appended threadId db db') :
    db'.projection.ItemsFromZero := by
  obtain ⟨batches, written, happends, hkeeps⟩ := happ
  exact Db.appends_invariant (P := fun db _ => db.projection.ItemsFromZero) (w := [])
    (fun _ _ _ _ _ _ _ hs hC hwrite => hs.applyEvent hC.1 (Db.writeDraft_projection hwrite).2.1)
    (fun _ _ _ hsame hs => hsame.projection ▸ hs) h hkeeps happends

/-! ### Counting what came back -/

namespace Projection

variable {p : Projection} {threadId : String}

theorem nodup_itemRows (p : Projection) (threadId : String) : ((p.itemRows threadId).map TurnItemRow.id).Nodup := by
  refine ((List.perm_insertionSort _ _).map _).nodup_iff.mpr ?_
  exact p.turnItems.nodup.sublist (List.filter_sublist.map _)

theorem holds_of_mem_itemRows {row : TurnItemRow} (hrow : row ∈ p.itemRows threadId) :
    p.Holds threadId row.id row.position :=
  ⟨row, Table.find?_key (mem_itemRows_iff.mp hrow).1, (mem_itemRows_iff.mp hrow).2, rfl⟩

private theorem Holds.counted {id : String} {position : Int} (h : p.Holds threadId id position) (part : Int → Bool) :
    (((p.itemRows threadId).filter (part ·.position)).map (·.body)).countP (·.id = id) =
      if part position then 1 else 0 := by
  obtain ⟨row, hfind, hthread, rfl⟩ := h
  obtain rfl := Table.key_of_find? hfind
  rw [List.countP_map]
  exact Pages.countP_filter_key (p.nodup_itemRows threadId)
    (mem_itemRows_iff.mpr ⟨Table.mem_of_find? hfind, hthread⟩) (part ·.position)

end Projection

theorem Db.historyPage_counted (h : db.projection.Holds threadId id position) (before : Int) (limit : Nat) :
    (db.historyPage threadId (some before) limit).items.countP (·.id = id) =
      if db.projection.pageFrom threadId before limit ≤ position ∧ position < before then 1 else 0 := by
  rw [(db.historyPage_items threadId before limit).countP_eq]
  have hpart := h.counted fun position =>
    decide (db.projection.pageFrom threadId before limit ≤ position) && decide (position < before)
  simpa only [Bool.and_eq_true, decide_eq_true_eq] using hpart

theorem Db.mem_historyPage_items {before : Int} {limit : Nat} {item : TurnItem}
    (h : item ∈ (db.historyPage threadId (some before) limit).items) :
    ∃ row ∈ db.projection.itemRows threadId, row.body = item ∧
      db.projection.pageFrom threadId before limit ≤ item.ordinal ∧ item.ordinal < before := by
  obtain ⟨row, hrow, rfl⟩ := List.mem_map.mp ((db.historyPage_items threadId before limit).mem_iff.mp h)
  obtain ⟨hrow, hrange⟩ := List.mem_filter.mp hrow
  rw [Bool.and_eq_true, decide_eq_true_eq, decide_eq_true_eq] at hrange
  exact ⟨row, hrow, rfl, hrange⟩

namespace HistoryReader

/-! ### The calls of one reader -/

/-- The snapshot is the first store's, its positions fit a cursor, every call asks for a run at least,
and only batches that leave the thread's items in place are committed between the calls. -/
structure Reads (r : HistoryReader) (runs : Nat) : Prop where
  opened : (r.store 0).snapshotThread r.threadId runs = some r.snapshot
  fits : ∀ row ∈ (r.store 0).projection.turnItems.rows, FitsCursor row.position
  limits : ∀ k, 1 ≤ r.limit k
  appended : ∀ k, Appended r.threadId (r.store k) (r.store (k + 1))

/-- Where the reader stands after `n` pages: it has what is at `start` or above, the cursor names
`start`, and without a cursor nothing is below. -/
private structure Stands (r : HistoryReader) (n : Nat) (start : Int) : Prop where
  counted : ∀ row ∈ (r.store 0).projection.itemRows r.threadId,
    (r.returned n).countP (·.id = row.id) = if start ≤ row.position then 1 else 0
  above : ∀ item ∈ r.returned n, start ≤ item.ordinal
  below : ∀ k < n, ∃ start, (r.cursor k).bind decodeHistoryCursor = some start ∧
    (∀ item ∈ r.returned k, start ≤ item.ordinal) ∧ ∀ item ∈ r.pageItems k, item.ordinal < start
  stored : (∀ k, r.store k = r.store 0) →
    ∀ item ∈ r.returned n, ∃ row ∈ (r.store 0).projection.itemRows r.threadId, row.body = item
  next : r.cursor n = some (encodeHistoryCursor start) ∧ FitsCursor start ∨
    r.cursor n = none ∧ ∀ row ∈ (r.store 0).projection.itemRows r.threadId, start ≤ row.position

variable {r : HistoryReader} {runs : Nat}

theorem Reads.fromZero (h : r.Reads runs) (n : Nat) : (r.store n).projection.ItemsFromZero := by
  induction n with
  | zero => exact fun row hrow => (h.fits row hrow).1
  | succ n ih => exact itemsFromZero_appended ih (h.appended n)

private theorem Reads.holds (h : r.Reads runs) {row : TurnItemRow}
    (hrow : row ∈ (r.store 0).projection.itemRows r.threadId) (n : Nat) :
    (r.store n).projection.Holds r.threadId row.id row.position := by
  induction n with
  | zero => exact Projection.holds_of_mem_itemRows hrow
  | succ n ih => exact ih.appended (h.appended n)

theorem returned_succ (r : HistoryReader) (n : Nat) : r.returned (n + 1) = r.returned n ++ r.pageItems n := by
  simp [returned, List.range_succ]

variable {n : Nat} {start : Int}

theorem Stands.next_page (h : r.Stands n start) (hr : r.Reads runs)
    (hcursor : r.cursor n = some (encodeHistoryCursor start)) (hfits : FitsCursor start) :
    ∃ start', r.Stands (n + 1) start' ∧ (r.cursor (n + 1) = none ∨ start' < start) := by
  set p := (r.store (n + 1)).projection with hp
  set start' := p.pageFrom r.threadId start (r.limit n) with hstart'
  have hpage : r.call n (encodeHistoryCursor start) =
      (r.store (n + 1)).historyPage r.threadId (some start) (r.limit n) := by
    rw [call, Db.historyAt, decode_encodeHistoryCursor hfits]
  have hitems : r.pageItems n = ((r.store (n + 1)).historyPage r.threadId (some start) (r.limit n)).items := by
    rw [pageItems, hcursor, Option.elim_some, hpage]
  have hnext : r.cursor (n + 1) =
      if 0 < (p.itemsBelow r.threadId start').length then some (encodeHistoryCursor start')
      else none := by
    rw [cursor, hcursor, Option.bind_some, hpage, Db.historyPage, Option.getD_some]
  have hle : start' ≤ start := by
    rcases p.pageFrom_spec r.threadId start (r.limit n) with hsame | ⟨-, hlt⟩
    · exact hsame.le
    · exact hlt.le
  have hfits' : FitsCursor start' := by
    rcases p.pageFrom_spec r.threadId start (r.limit n) with hsame | ⟨⟨row, hrow, hposition⟩, hlt⟩
    · rw [hstart', hsame]
      exact hfits
    · refine ⟨?_, hle.trans_lt hfits.2⟩
      rw [hstart', ← hposition]
      exact hr.fromZero (n + 1) row hrow
  refine ⟨start', ⟨?_, ?_, ?_, ?_, ?_⟩, ?_⟩
  · intro row hrow
    have hcounted := Db.historyPage_counted (hr.holds hrow (n + 1)) start (r.limit n)
    rw [← hp, ← hstart'] at hcounted
    rw [returned_succ, List.countP_append, h.counted row hrow, hitems, hcounted]
    split_ifs <;> omega
  · intro item hitem
    rw [returned_succ, List.mem_append, hitems] at hitem
    rcases hitem with hitem | hitem
    · exact hle.trans (h.above item hitem)
    · obtain ⟨-, -, -, hrange, -⟩ := Db.mem_historyPage_items hitem
      exact hrange
  · intro k hk
    rcases Nat.lt_succ_iff_lt_or_eq.mp hk with hk | rfl
    · exact h.below k hk
    · refine ⟨start, ?_, h.above, fun item hitem => ?_⟩
      · rw [hcursor, Option.bind_some, decode_encodeHistoryCursor hfits]
      · rw [hitems] at hitem
        obtain ⟨-, -, -, -, hrange⟩ := Db.mem_historyPage_items hitem
        exact hrange
  · intro hsame item hitem
    rw [returned_succ, List.mem_append, hitems] at hitem
    rcases hitem with hitem | hitem
    · exact h.stored hsame item hitem
    · obtain ⟨row, hrow, hbody, -⟩ := Db.mem_historyPage_items hitem
      exact ⟨row, hsame (n + 1) ▸ hrow, hbody⟩
  · rw [hnext]
    split_ifs with holder
    · exact .inl ⟨rfl, hfits'⟩
    · refine .inr ⟨rfl, fun row hrow => ?_⟩
      obtain ⟨row', hfind, hthread, hposition⟩ := hr.holds hrow (n + 1)
      by_contra hlt
      refine holder (List.length_pos_of_mem (a := row') ?_)
      refine Projection.mem_itemsBelow.mpr ⟨Table.mem_of_find? hfind, hthread, ?_⟩
      rw [hposition]
      exact not_le.mp hlt
  · by_cases hbelow : p.itemsBelow r.threadId start = []
    · refine .inl ?_
      rw [hnext, if_neg]
      intro hpos
      obtain ⟨row, hrow⟩ := List.exists_mem_of_length_pos hpos
      obtain ⟨hstored, hthread, hlt⟩ := Projection.mem_itemsBelow.mp hrow
      exact List.not_mem_nil (hbelow ▸ Projection.mem_itemsBelow.mpr ⟨hstored, hthread, hlt.trans_le hle⟩)
    · exact .inr (Projection.pageFrom_lt (hr.limits n) hbelow)

private theorem Stands.ends (h : r.Stands n start) (hr : r.Reads runs) :
    ∃ m last, r.Stands m last ∧ r.cursor m = none := by
  induction hstart : start.toNat using Nat.strong_induction_on generalizing n start with
  | _ k ih =>
    rcases h.next with ⟨hcursor, hfits⟩ | ⟨hcursor, -⟩
    · obtain ⟨start', hnext, hnone | hlt⟩ := h.next_page hr hcursor hfits
      · exact ⟨n + 1, start', hnext, hnone⟩
      · rcases hnext.next with ⟨-, hfits'⟩ | ⟨hnone, -⟩
        · have hpos := hfits'.1
          exact ih start'.toNat (by omega) hnext rfl
        · exact ⟨n + 1, start', hnext, hnone⟩
    · exact ⟨n, start, h, hcursor⟩

private def committed (db : Db) (batch : Batch) : Db := ((db.append batch).toOption.map (·.1)).getD db

end HistoryReader

end Sightr
