import Sightr.Journal.Claude

/-!
# Reading a session log in pieces

`TranscriptStore.readSince` of `bridge/journal/store.ts` and the item ids `itemDrafts` and `ingestJournal`
of `bridge/threads/journal-ingest.ts` create, over a log of one path that only grows. A read sees the
log's first `size` bytes, which may end within a line.
-/

namespace Sightr

/-! ### The log -/

/-- A complete line: its length without the newline, and its row when it parses as one. -/
structure LogRow where
  bytes : Nat
  row : Option RawRow
  deriving DecidableEq

def LogRow.size (line : LogRow) : Nat := line.bytes + 1

/-- The offsets just after each newline, for lines that begin at `pos`. -/
def lineEnds : Nat → List LogRow → List Nat
  | _, [] => []
  | pos, line :: lines => (pos + line.size) :: lineEnds (pos + line.size) lines

def linesIn (lo hi : Nat) : Nat → List LogRow → List LogRow
  | _, [] => []
  | pos, line :: lines =>
    if lo ≤ pos ∧ pos + line.size ≤ hi then line :: linesIn lo hi (pos + line.size) lines
    else linesIn lo hi (pos + line.size) lines

variable (log : List LogRow)

def rowsBetween (lo hi : Nat) : List RawRow := (linesIn lo hi 0 log).filterMap (·.row)

def parseBetween (lo hi : Nat) : List TranscriptEntry := parseClaudeTranscript (rowsBetween log lo hi)

/-! ### One read -/

structure FileStat where
  size : Nat
  mtimeMs : Int
  deriving DecidableEq

structure SavedRead where
  offset : Nat
  size : Nat
  mtimeMs : Int
  deriving DecidableEq

/-- Repeated bytes at the start of an incremental read. -/
def OVERLAP_BYTES : Nat := 256 * 1024

def MAX_TRANSCRIPT_BYTES : Nat := 32 * 1024 * 1024

inductive ReadSinceResult
  | unchanged
  | read (entries : List TranscriptEntry) (nextOffset size : Nat) (mtimeMs : Int) (reset : Bool)

/-- The first newline's place in the range, counted from one; zero when it has none. -/
def firstNewline (start stop : Nat) : Nat :=
  (((lineEnds 0 log).find? fun e => start < e ∧ e ≤ stop).map (· - start)).getD 0

/-- The last newline's place in the range, counted from one; zero when it has none. -/
def lastNewline (start stop : Nat) : Nat :=
  ((((lineEnds 0 log).filter fun e => start < e ∧ e ≤ stop).getLast?).map (· - start)).getD 0

/-- Where a read from `start` begins to parse: at the next line start. -/
def windowStart (start stop : Nat) : Nat :=
  if start = 0 then 0 else start + firstNewline log start stop

def readSince (stat : FileStat) (saved : Option SavedRead) : ReadSinceResult :=
  if saved.any fun saved => stat.size = saved.size && stat.mtimeMs = saved.mtimeMs then .unchanged
  else
    let reset := saved.all fun saved => stat.size < saved.offset
    let offset := (saved.map (·.offset)).getD 0
    let start := if reset then stat.size - MAX_TRANSCRIPT_BYTES else offset - OVERLAP_BYTES
    let first := if start = 0 then 0 else firstNewline log start stat.size
    let last := lastNewline log start stat.size
    let hasLines := (start = 0 || first > 0) && last > first
    let nextOffset := if hasLines then start + last else if reset then start + first else offset
    .read (if hasLines then parseBetween log (start + first) (start + last) else [])
      nextOffset stat.size stat.mtimeMs reset

/-! ### The ids an ingest creates -/

def BACKFILL_ENTRIES : Nat := 50

def anchors (held : List String) (entry : TranscriptEntry) : Bool := (entryItemIds entry).any (held.contains ·)

/-- The entries whose new items are created: on a log read from its start, those after the newest one
the store already holds, else the newest ones. -/
def createEntries (held : List String) (entries : List TranscriptEntry) (fresh : Bool) : List TranscriptEntry :=
  if fresh then
    if entries.any (anchors held) then
      (entries.reverse.takeWhile fun entry => !anchors held entry).reverse
    else entries.drop (entries.length - BACKFILL_ENTRIES)
  else entries

def itemDrafts (held : List String) (entries : List TranscriptEntry) (fresh : Bool) : List String :=
  (itemIds (createEntries held entries fresh)).filter fun id => !held.contains id

/-- The thread's saved read, and the ids of the items the store holds. -/
structure IngestState where
  saved : Option SavedRead
  ids : List String
  deriving DecidableEq

def ingestJournal (s : IngestState) (stat : FileStat) : IngestState :=
  match readSince log stat s.saved with
  | .unchanged => s
  | .read entries nextOffset size mtimeMs reset =>
    { saved := some { offset := nextOffset, size, mtimeMs }
      ids := s.ids ++ itemDrafts s.ids entries (s.saved.isNone || reset) }

def ingestAll (s : IngestState) (stats : List FileStat) : IngestState := stats.foldl (ingestJournal log) s

/-! ### Lines -/

/-- A line begins at the offset, or the log ends there. -/
def IsLineStart (pos : Nat) : Prop := pos = 0 ∨ pos ∈ lineEnds 0 log

instance (log : List LogRow) (pos : Nat) : Decidable (IsLineStart log pos) := inferInstanceAs (Decidable (_ ∨ _))

variable {pos e : Nat} {lines : List LogRow}

theorem lt_of_mem_lineEnds (h : e ∈ lineEnds pos lines) : pos < e := by
  induction lines generalizing pos with
  | nil => cases h
  | cons line lines ih =>
    have hsize : pos < pos + line.size := Nat.lt_add_of_pos_right (Nat.succ_pos _)
    rcases List.mem_cons.mp h with rfl | h
    · exact hsize
    · exact hsize.trans (ih h)

theorem lineEnds_pairwise (pos : Nat) (lines : List LogRow) : (lineEnds pos lines).Pairwise (· < ·) := by
  induction lines generalizing pos with
  | nil => exact .nil
  | cons line lines ih => exact .cons (fun _ h => lt_of_mem_lineEnds h) (ih _)

variable {lo hi : Nat}

theorem linesIn_eq_nil (h : hi ≤ lo ∨ hi ≤ pos) : linesIn lo hi pos lines = [] := by
  induction lines generalizing pos with
  | nil => rfl
  | cons line lines ih =>
    rw [linesIn, if_neg (by simp only [LogRow.size]; omega)]
    exact ih (h.imp_right fun h => h.trans (Nat.le_add_right _ _))

theorem linesIn_append {lo mid hi pos : Nat} {lines : List LogRow}
    (hmid : mid ≤ pos ∨ mid ∈ lineEnds pos lines) (hlo : lo ≤ mid) (hhi : mid ≤ hi) :
    linesIn lo hi pos lines = linesIn lo mid pos lines ++ linesIn mid hi pos lines := by
  induction lines generalizing pos with
  | nil => rfl
  | cons line lines ih =>
    have hnext : mid ≤ pos + line.size ∨ mid ∈ lineEnds (pos + line.size) lines := by
      rcases hmid with hle | hmem
      · exact .inl (hle.trans (Nat.le_add_right _ _))
      · exact (List.mem_cons.mp hmem).imp_left le_of_eq
    have hside : mid ≤ pos ∨ pos < mid ∧ pos + line.size ≤ mid := by
      rcases hmid with hle | hmem
      · exact .inl hle
      · refine .inr ⟨lt_of_mem_lineEnds hmem, ?_⟩
        rcases List.mem_cons.mp hmem with heq | hmem
        · exact heq.ge
        · exact (lt_of_mem_lineEnds hmem).le
    simp only [linesIn, ih hnext]
    rcases hside with hle | ⟨hlt, hle⟩
    · have hbefore : linesIn lo mid (pos + line.size) lines = [] :=
        linesIn_eq_nil (.inr (hle.trans (Nat.le_add_right _ _)))
      have hsplit : ¬ (lo ≤ pos ∧ pos + line.size ≤ mid) := by simp only [LogRow.size]; omega
      have hboth : (lo ≤ pos ∧ pos + line.size ≤ hi) ↔ (mid ≤ pos ∧ pos + line.size ≤ hi) := by
        omega
      simp only [if_neg hsplit, hbefore, List.nil_append, hboth]
    · have hafter : ¬ (mid ≤ pos ∧ pos + line.size ≤ hi) := by omega
      have hboth : (lo ≤ pos ∧ pos + line.size ≤ hi) ↔ (lo ≤ pos ∧ pos + line.size ≤ mid) := by
        omega
      simp only [if_neg hafter, hboth]
      split <;> rfl

theorem linesIn_longer {lo hi hi' pos : Nat} {lines : List LogRow} (h : hi ≤ hi') :
    linesIn lo hi pos lines <+: linesIn lo hi' pos lines := by
  induction lines generalizing pos with
  | nil => exact List.prefix_rfl
  | cons line lines ih =>
    simp only [linesIn]
    by_cases hin : lo ≤ pos ∧ pos + line.size ≤ hi
    · rw [if_pos hin, if_pos ⟨hin.1, hin.2.trans h⟩]
      exact List.prefix_cons_inj _ |>.mpr ih
    · rw [if_neg hin]
      split
      · have hnil : linesIn lo hi (pos + line.size) lines = [] := linesIn_eq_nil (.inr (by omega))
        rw [hnil]
        exact List.nil_prefix
      · exact ih

/-! ### Newlines of a range -/

variable {log : List LogRow} {start stop : Nat}

theorem firstNewline_spec (he : e ∈ lineEnds 0 log) (hstart : start < e) (hstop : e ≤ stop) :
    start + firstNewline log start stop ∈ lineEnds 0 log ∧ 0 < firstNewline log start stop ∧
      start + firstNewline log start stop ≤ e := by
  cases hfind : (lineEnds 0 log).find? fun e => start < e ∧ e ≤ stop with
  | none => exact absurd (decide_eq_true ⟨hstart, hstop⟩) (List.find?_eq_none.mp hfind e he)
  | some first =>
    obtain ⟨hfirst, before, after, hlog, hbefore⟩ := List.find?_eq_some_iff_append.mp hfind
    have hrange : start < first ∧ first ≤ stop := of_decide_eq_true hfirst
    have heq : start + firstNewline log start stop = first := by
      simp only [firstNewline, hfind, Option.map_some, Option.getD_some]
      omega
    have hsorted := lineEnds_pairwise 0 log
    rw [hlog] at he hsorted
    have hle : first ≤ e := by
      rcases List.mem_append.mp he with hmem | hmem
      · have hnot := hbefore e hmem
        simp [hstart, hstop] at hnot
      rcases List.mem_cons.mp hmem with heq | hmem
      · exact heq.ge
      · exact (List.rel_of_pairwise_cons (List.pairwise_append.mp hsorted).2.1 hmem).le
    refine ⟨heq ▸ List.mem_of_find?_eq_some hfind, by omega, by omega⟩

theorem lastNewline_spec (he : e ∈ lineEnds 0 log) (hstart : start < e) (hstop : e ≤ stop) :
    e ≤ start + lastNewline log start stop ∧ start + lastNewline log start stop ≤ stop := by
  have hmem : e ∈ (lineEnds 0 log).filter fun e => start < e ∧ e ≤ stop :=
    List.mem_filter.mpr ⟨he, decide_eq_true ⟨hstart, hstop⟩⟩
  obtain ⟨before, last, hlast⟩ := List.eq_nil_or_concat _ |>.resolve_left (List.ne_nil_of_mem hmem)
  have hrange : start < last ∧ last ≤ stop := by
    have hin : last ∈ (lineEnds 0 log).filter fun e => start < e ∧ e ≤ stop := by
      rw [hlast, List.concat_eq_append]
      exact List.mem_append_right before List.mem_cons_self
    exact of_decide_eq_true (List.mem_filter.mp hin).2
  have heq : start + lastNewline log start stop = last := by
    simp only [lastNewline, hlast, List.concat_eq_append, List.getLast?_append, List.getLast?_singleton,
      Option.some_or, Option.map_some, Option.getD_some]
    omega
  have hsorted := (lineEnds_pairwise 0 log).filter fun e => start < e ∧ e ≤ stop
  rw [hlast, List.concat_eq_append] at hmem hsorted
  refine ⟨heq ▸ ?_, heq ▸ hrange.2⟩
  rcases List.mem_append.mp hmem with hbefore | hself
  · exact ((List.pairwise_append.mp hsorted).2.2 e hbefore last List.mem_cons_self).le
  · exact (List.mem_singleton.mp hself).le

/-! ### A read of a log of complete rows -/

theorem windowStart_spec (he : IsLineStart log e) (hstart : start ≠ 0 → start < e) (hstop : e ≤ stop) :
    IsLineStart log (windowStart log start stop) ∧ windowStart log start stop ≤ e := by
  unfold windowStart
  by_cases hzero : start = 0
  · rw [if_pos hzero]
    exact ⟨.inl rfl, Nat.zero_le e⟩
  · rw [if_neg hzero]
    have hlt := hstart hzero
    obtain ⟨hmem, -, hle⟩ := firstNewline_spec (he.resolve_left (by omega)) hlt hstop
    exact ⟨.inr hmem, hle⟩

section

variable (hstop : IsLineStart log stop)
include hstop

theorem windowStart_mono {start' stop' : Nat} (hstop' : IsLineStart log stop')
    (hle : start ≤ start') (hstart : start ≠ 0 → start < stop) (hstart' : start' ≠ 0 → start' < stop') :
    windowStart log start stop ≤ windowStart log start' stop' := by
  have hfirst := (windowStart_spec hstop hstart le_rfl).2
  by_cases hzero : start = 0
  · rw [windowStart, if_pos hzero]
    exact Nat.zero_le _
  have hzero' : start' ≠ 0 := by omega
  have hlt := hstart' hzero'
  obtain ⟨hmem', hpos', -⟩ := firstNewline_spec (hstop'.resolve_left (by omega)) hlt le_rfl
  have hwindow' : windowStart log start' stop' = start' + firstNewline log start' stop' := if_neg hzero'
  rw [hwindow']
  by_cases hin : start' + firstNewline log start' stop' ≤ stop
  · rw [windowStart, if_neg hzero]
    exact (firstNewline_spec hmem' (by omega) hin).2.2
  · omega

theorem add_lastNewline (hstart : start ≠ 0 → start < stop) : start + lastNewline log start stop = stop := by
  rcases hstop with hzero | hmem
  · have hnone : (lineEnds 0 log).filter (fun e => decide (start < e ∧ e ≤ stop)) = [] :=
      List.filter_eq_nil_iff.mpr fun e he => by
        have hpos := lt_of_mem_lineEnds he
        simp only [decide_eq_true_eq]
        omega
    simp only [lastNewline, hnone, List.getLast?_nil, Option.map_none, Option.getD_none]
    omega
  · have hpos := lt_of_mem_lineEnds hmem
    have hlt : start < stop := by omega
    obtain ⟨hle, hge⟩ := lastNewline_spec hmem hlt le_rfl
    exact Nat.le_antisymm hge hle

theorem readSince_cut (hstart : start ≠ 0 → start < stop) :
    ((decide (start = 0) || decide ((if start = 0 then 0 else firstNewline log start stop) > 0)) &&
        decide (lastNewline log start stop > if start = 0 then 0 else firstNewline log start stop)) =
      decide (windowStart log start stop < stop) := by
  have hlast := add_lastNewline hstop hstart
  unfold windowStart
  by_cases hzero : start = 0
  · subst hzero
    simp only [decide_true, Bool.true_or, Bool.true_and, if_true, decide_eq_decide]
    omega
  · have hlt := hstart hzero
    obtain ⟨-, hpos, -⟩ := firstNewline_spec (hstop.resolve_left (by omega)) hlt le_rfl
    simp only [if_neg hzero, decide_eq_false hzero, gt_iff_lt, hpos, decide_true, Bool.false_or,
      Bool.true_and, decide_eq_decide]
    omega

end

theorem add_first (log : List LogRow) (start stop : Nat) :
    start + (if start = 0 then 0 else firstNewline log start stop) = windowStart log start stop := by
  unfold windowStart
  split
  · rwa [Nat.add_zero]
  · rfl

theorem parseBetween_eq_nil (h : hi ≤ lo) : parseBetween log lo hi = [] := by
  rw [parseBetween, rowsBetween, linesIn_eq_nil (.inl h)]
  rfl

variable {stat : FileStat}

theorem readSince_first (hstat : IsLineStart log stat.size) : readSince log stat none =
      .read (parseBetween log (windowStart log (stat.size - MAX_TRANSCRIPT_BYTES) stat.size) stat.size)
        stat.size stat.size stat.mtimeMs true := by
  have hstart : stat.size - MAX_TRANSCRIPT_BYTES ≠ 0 → stat.size - MAX_TRANSCRIPT_BYTES < stat.size := by
    have hmax : 0 < MAX_TRANSCRIPT_BYTES := by decide
    omega
  have hle := (windowStart_spec hstat hstart le_rfl).2
  simp only [readSince, Option.any_none, Bool.false_eq_true, if_false, Option.all_none, if_true,
    readSince_cut hstat hstart, add_first, add_lastNewline hstat hstart, decide_eq_true_eq]
  split
  · rfl
  · rename_i hge
    rw [parseBetween_eq_nil (Nat.le_of_not_lt hge), Nat.le_antisymm hle (Nat.le_of_not_lt hge)]

/-- A later read parses the rows of its window, which begins before the saved offset. -/
theorem readSince_later {log : List LogRow} {stat : FileStat} {saved : SavedRead}
    (hstat : IsLineStart log stat.size) (hsaved : IsLineStart log saved.offset)
    (hgrown : saved.offset ≤ stat.size)
    (hchanged : ¬ (stat.size = saved.size ∧ stat.mtimeMs = saved.mtimeMs)) :
    readSince log stat (some saved) =
      .read (parseBetween log (windowStart log (saved.offset - OVERLAP_BYTES) stat.size) stat.size)
        stat.size stat.size stat.mtimeMs false := by
  have hbefore : saved.offset - OVERLAP_BYTES ≠ 0 → saved.offset - OVERLAP_BYTES < saved.offset := by
    have hmax : 0 < OVERLAP_BYTES := by decide
    omega
  have hstart : saved.offset - OVERLAP_BYTES ≠ 0 → saved.offset - OVERLAP_BYTES < stat.size :=
    fun h => (hbefore h).trans_le hgrown
  have hle := (windowStart_spec hsaved hbefore hgrown).2
  have hreset : decide (stat.size < saved.offset) = false := decide_eq_false (Nat.not_lt.mpr hgrown)
  have hsame : (decide (stat.size = saved.size) && decide (stat.mtimeMs = saved.mtimeMs)) = false := by
    simpa only [Bool.and_eq_false_iff, decide_eq_false_iff_not, not_and_or] using hchanged
  simp only [readSince, Option.any_some, Option.all_some, Option.map_some, Option.getD_some, hsame,
    hreset, Bool.false_eq_true, if_false, readSince_cut hstat hstart, add_first,
    add_lastNewline hstat hstart, decide_eq_true_eq]
  split
  · rfl
  · rename_i hge
    rw [parseBetween_eq_nil (Nat.le_of_not_lt hge)]
    congr 1
    omega

/-! ### A schedule of reads -/

def firstWindow (log : List LogRow) (first : FileStat) : Nat :=
  windowStart log (first.size - MAX_TRANSCRIPT_BYTES) first.size

/-- The windows of the reads after `prev`; a read that finds the log unchanged has none. -/
def laterWindows (log : List LogRow) : FileStat → List FileStat → List (Nat × Nat)
  | _, [] => []
  | prev, stat :: later =>
    if stat = prev then laterWindows log prev later
    else (windowStart log (prev.size - OVERLAP_BYTES) stat.size, stat.size) ::
      laterWindows log stat later

/-- No later window begins between a row and the call it folds onto. -/
def WindowsFold (log : List LogRow) (first : FileStat) (later : List FileStat) : Prop :=
  ∀ window ∈ laterWindows log first later,
    FoldsWithin (rowsBetween log (firstWindow log first) window.1) (rowsBetween log window.1 window.2)

instance (log : List LogRow) (first : FileStat) (later : List FileStat) : Decidable (WindowsFold log first later) :=
  inferInstanceAs (Decidable (∀ window ∈ laterWindows log first later, _))

/-- The entries older than the newest of the first read and than every later window. -/
def backfillSkips (log : List LogRow) (first : FileStat) (later : List FileStat) : Nat :=
  (laterWindows log first later).foldl
    (fun skipped window => min skipped (parseBetween log (firstWindow log first) window.1).length)
    ((parseBetween log (firstWindow log first) first.size).length - BACKFILL_ENTRIES)

/-! ### What a schedule creates -/

variable {entries : List TranscriptEntry} {id : String}

theorem mem_itemIds : id ∈ itemIds entries ↔ ∃ entry ∈ entries, id ∈ entryItemIds entry := List.mem_flatMap

theorem itemIds_append (entries more : List TranscriptEntry) :
    itemIds (entries ++ more) = itemIds entries ++ itemIds more := List.flatMap_append

variable {hi' : Nat}

theorem parseBetween_longer (h : hi ≤ hi') : parseBetween log lo hi <+: parseBetween log lo hi' := by
  obtain ⟨more, hmore⟩ := (@linesIn_longer lo hi hi' 0 log h).filterMap (·.row)
  refine ⟨(parseRows (parseRows .empty (rowsBetween log lo hi)).1 more).2, ?_⟩
  rw [parseBetween, parseBetween, rowsBetween, rowsBetween, ← hmore, parseClaudeTranscript,
    parseClaudeTranscript, parseRows_append]

variable {mid : Nat}

theorem parseBetween_append (hmid : IsLineStart log mid) (hlo : lo ≤ mid) (hhi : mid ≤ hi)
    (hfolds : FoldsWithin (rowsBetween log lo mid) (rowsBetween log mid hi)) :
    parseBetween log lo hi = parseBetween log lo mid ++ parseBetween log mid hi := by
  have hlines := @linesIn_append lo mid hi 0 log (hmid.imp_left le_of_eq) hlo hhi
  rw [parseBetween, rowsBetween, hlines, List.filterMap_append]
  exact parseRows_of_foldsWithin hfolds

theorem FoldsWithin.mono (h : hi ≤ hi') (hfolds : FoldsWithin (rowsBetween log lo mid) (rowsBetween log mid hi')) :
    FoldsWithin (rowsBetween log lo mid) (rowsBetween log mid hi) :=
  fun row hrow => hfolds row
    (((@linesIn_longer mid hi hi' 0 log h).filterMap (·.row)).subset hrow)

variable {skipped : Nat}

theorem mem_itemIds_window {before part window : List TranscriptEntry} (hpart : part <+: window) :
    id ∈ itemIds ((before ++ part).drop skipped) ∨ id ∈ itemIds window ↔
      id ∈ itemIds ((before ++ window).drop (min skipped before.length)) := by
  have hsub : ∀ n, id ∈ itemIds (part.drop n) → id ∈ itemIds window := by
    intro n hid
    obtain ⟨entry, hentry, hid⟩ := mem_itemIds.mp hid
    exact mem_itemIds.mpr ⟨entry, hpart.subset (List.mem_of_mem_drop hentry), hid⟩
  rw [List.drop_append, List.drop_append, itemIds_append, itemIds_append, List.mem_append,
    List.mem_append, Nat.sub_eq_zero_of_le (min_le_right _ _), List.drop_zero]
  have hbefore : before.drop (min skipped before.length) = before.drop skipped := by
    by_cases hle : skipped ≤ before.length
    · rw [min_eq_left hle]
    · have hge := (Nat.lt_of_not_le hle).le
      rw [min_eq_right hge, List.drop_length, List.drop_eq_nil_of_le hge]
  rw [hbefore, or_assoc, or_iff_right_of_imp (hsub (skipped - before.length))]

def FileStat.saved (stat : FileStat) : SavedRead :=
  { offset := stat.size, size := stat.size, mtimeMs := stat.mtimeMs }

variable {held : List String}

theorem mem_append_itemDrafts {fresh : Bool} : id ∈ held ++ itemDrafts held entries fresh ↔
      id ∈ held ∨ id ∈ itemIds (createEntries held entries fresh) := by
  rw [List.mem_append, itemDrafts, List.mem_filter]
  by_cases hheld : id ∈ held
  · simp only [hheld, true_or]
  · simp [hheld]

variable {first : FileStat}

theorem ingestJournal_first (hfirst : IsLineStart log first.size)
    (hheld : ∀ id ∈ itemIds (parseBetween log (firstWindow log first) first.size), id ∉ held) :
    (ingestJournal log ⟨none, held⟩ first).saved = some first.saved ∧
      ∀ id, id ∈ (ingestJournal log ⟨none, held⟩ first).ids ↔ id ∈ held ∨ id ∈ itemIds
        ((parseBetween log (firstWindow log first) first.size).drop
          ((parseBetween log (firstWindow log first) first.size).length - BACKFILL_ENTRIES)) := by
  have hread := readSince_first hfirst
  have hanchor : (parseBetween log (firstWindow log first) first.size).any (anchors held) = false := by
    rw [List.any_eq_false]
    intro entry hentry hany
    obtain ⟨id, hid, hcontains⟩ := List.any_eq_true.mp hany
    exact hheld id (mem_itemIds.mpr ⟨entry, hentry, hid⟩) (List.contains_iff_mem.mp hcontains)
  simp only [ingestJournal, hread]
  refine ⟨rfl, fun id => mem_append_itemDrafts.trans ?_⟩
  rw [createEntries, Option.isNone_none, Bool.true_or, if_pos rfl]
  show _ ∨ id ∈ itemIds (if (parseBetween log (firstWindow log first) first.size).any (anchors held)
    then _ else _) ↔ _
  rw [hanchor, if_neg Bool.false_ne_true]
  rfl

variable {s : IngestState} {prev : FileStat}

theorem ingestJournal_later (hsaved : s.saved = some prev.saved) (hprev : IsLineStart log prev.size)
    (hstat : IsLineStart log stat.size) (hgrown : prev.size ≤ stat.size) (hchanged : stat ≠ prev) :
    (ingestJournal log s stat).saved = some stat.saved ∧
      ∀ id, id ∈ (ingestJournal log s stat).ids ↔ id ∈ s.ids ∨ id ∈ itemIds
        (parseBetween log (windowStart log (prev.size - OVERLAP_BYTES) stat.size) stat.size) := by
  have hread := @readSince_later log stat prev.saved hstat hprev hgrown fun ⟨hsize, hmtime⟩ =>
    hchanged (by cases stat; cases prev; simp_all [FileStat.saved])
  simp only [ingestJournal, hsaved, hread]
  exact ⟨rfl, fun id => mem_append_itemDrafts⟩

theorem ingestJournal_unchanged (hsaved : s.saved = some prev.saved) : ingestJournal log s prev = s := by
  simp [ingestJournal, readSince, hsaved, FileStat.saved]

theorem ingestJournal_mem {log : List LogRow} {first prev stat : FileStat} {s : IngestState}
    {held : List String} {skipped : Nat} {id : String}
    (hfirst : IsLineStart log first.size) (hprev : IsLineStart log prev.size)
    (hstat : IsLineStart log stat.size) (hle : first.size ≤ prev.size)
    (hgrown : prev.size ≤ stat.size) (hchanged : stat ≠ prev) (hsaved : s.saved = some prev.saved)
    (hids : ∀ id, id ∈ s.ids ↔ id ∈ held ∨
      id ∈ itemIds ((parseBetween log (firstWindow log first) prev.size).drop skipped))
    (hfolds : FoldsWithin (rowsBetween log (firstWindow log first)
        (windowStart log (prev.size - OVERLAP_BYTES) stat.size))
      (rowsBetween log (windowStart log (prev.size - OVERLAP_BYTES) stat.size) stat.size)) :
    id ∈ (ingestJournal log s stat).ids ↔ id ∈ held ∨
      id ∈ itemIds ((parseBetween log (firstWindow log first) stat.size).drop
        (min skipped (parseBetween log (firstWindow log first)
          (windowStart log (prev.size - OVERLAP_BYTES) stat.size)).length)) := by
  have hoverlap : OVERLAP_BYTES ≤ MAX_TRANSCRIPT_BYTES := by decide
  have hpos : 0 < OVERLAP_BYTES := by decide
  have hfirstStart : first.size - MAX_TRANSCRIPT_BYTES ≠ 0 →
      first.size - MAX_TRANSCRIPT_BYTES < first.size := by omega
  have hstart : prev.size - OVERLAP_BYTES ≠ 0 → prev.size - OVERLAP_BYTES < prev.size := by omega
  have hstart' : prev.size - OVERLAP_BYTES ≠ 0 → prev.size - OVERLAP_BYTES < stat.size := by omega
  obtain ⟨hwindow, hbefore⟩ := windowStart_spec hprev hstart hgrown
  have horigin : firstWindow log first ≤ windowStart log (prev.size - OVERLAP_BYTES) stat.size :=
    windowStart_mono hfirst hstat (by omega) hfirstStart hstart'
  rw [(ingestJournal_later hsaved hprev hstat hgrown hchanged).2 id, hids, or_assoc,
    parseBetween_append hwindow horigin (hbefore.trans hgrown) hfolds,
    parseBetween_append hwindow horigin hbefore (hfolds.mono hgrown)]
  exact or_congr_right (mem_itemIds_window (parseBetween_longer hgrown))

theorem ingestAll_mem {later : List FileStat} (hfirst : IsLineStart log first.size)
    (hrows : ∀ stat ∈ prev :: later, IsLineStart log stat.size) (hle : first.size ≤ prev.size)
    (hgrows : (prev :: later).Pairwise (·.size ≤ ·.size)) (hsaved : s.saved = some prev.saved)
    (hids : ∀ id, id ∈ s.ids ↔ id ∈ held ∨ id ∈ itemIds ((parseBetween log
      (firstWindow log first) prev.size).drop skipped))
    (hfolds : ∀ window ∈ laterWindows log prev later, FoldsWithin (rowsBetween log
      (firstWindow log first) window.1) (rowsBetween log window.1 window.2)) :
    id ∈ (ingestAll log s later).ids ↔ id ∈ held ∨
      id ∈ itemIds ((parseBetween log (firstWindow log first) (later.getLastD prev).size).drop
        ((laterWindows log prev later).foldl (fun skipped window =>
          min skipped (parseBetween log (firstWindow log first) window.1).length) skipped)) := by
  induction later generalizing prev s skipped with
  | nil => exact hids id
  | cons stat later ih =>
    have hstat : IsLineStart log stat.size := hrows stat (List.mem_cons_of_mem _ List.mem_cons_self)
    have hgrown : prev.size ≤ stat.size := List.rel_of_pairwise_cons hgrows List.mem_cons_self
    have hrows' : ∀ stat' ∈ stat :: later, IsLineStart log stat'.size :=
      fun stat' h => hrows stat' (List.mem_cons_of_mem _ h)
    rw [ingestAll, List.foldl_cons, List.getLastD_cons]
    by_cases hchanged : stat = prev
    · subst hchanged
      rw [ingestJournal_unchanged hsaved]
      rw [laterWindows, if_pos rfl] at hfolds ⊢
      exact ih hrows' hle hgrows.of_cons hsaved hids hfolds
    · rw [laterWindows, if_neg hchanged] at hfolds ⊢
      have hsaved' := (ingestJournal_later hsaved (hrows prev List.mem_cons_self) hstat hgrown hchanged).1
      obtain ⟨hfold, hrest⟩ := List.forall_mem_cons.mp hfolds
      dsimp only at hfold
      have hids' := fun id => @ingestJournal_mem log first prev stat s held skipped id hfirst
        (hrows prev List.mem_cons_self) hstat hle hgrown hchanged hsaved hids hfold
      simp only [List.foldl_cons]
      exact ih hrows' (hle.trans hgrown) hgrows.of_cons hsaved' hids' hrest

/-- **Incremental ingest.** Over a log of complete rows that only grows, where no later window begins
between a row and the call it folds onto, the items the reads create are those of the log parsed once
from the start of the first read, apart from the entries older than the newest `BACKFILL_ENTRIES` of
the first read and than every later window. -/
theorem ingest_creates {log : List LogRow} {first : FileStat} {later : List FileStat}
    {held : List String} (hrows : ∀ stat ∈ first :: later, IsLineStart log stat.size)
    (hgrows : (first :: later).Pairwise (·.size ≤ ·.size)) (hfolds : WindowsFold log first later)
    (hheld : ∀ id ∈ itemIds (parseBetween log (firstWindow log first) first.size), id ∉ held)
    (id : String) :
    id ∈ (ingestAll log ⟨none, held⟩ (first :: later)).ids ↔ id ∈ held ∨
      id ∈ itemIds ((parseBetween log (firstWindow log first) (later.getLastD first).size).drop
        (backfillSkips log first later)) := by
  have hfirst := hrows first List.mem_cons_self
  obtain ⟨hsaved, hids⟩ := ingestJournal_first hfirst hheld
  rw [ingestAll, List.foldl_cons, backfillSkips]
  exact ingestAll_mem hfirst hrows le_rfl hgrows hsaved hids hfolds

private def callRow : RawRow :=
  { type := "assistant", uuid := "a1"
    message := some (.blocks [.toolUse (some "toolu_1") "Bash" "ls" true]) }

private def resultRow : RawRow :=
  { type := "user", uuid := "r1"
    message := some (.blocks [.toolResult "toolu_1" "a.txt" 0 false]) }

/-- A log with a call, read before and after its result is written. -/
theorem ingest_creates_call :
    "a1:0" ∈ (ingestAll [⟨99, some callRow⟩, ⟨99, some resultRow⟩] ⟨none, []⟩ [⟨100, 1⟩, ⟨200, 2⟩]).ids ↔
      "a1:0" ∈ ([] : List String) ∨ "a1:0" ∈ itemIds ((parseBetween [⟨99, some callRow⟩, ⟨99, some resultRow⟩]
          (firstWindow [⟨99, some callRow⟩, ⟨99, some resultRow⟩] ⟨100, 1⟩) 200).drop
          (backfillSkips [⟨99, some callRow⟩, ⟨99, some resultRow⟩] ⟨100, 1⟩ [⟨200, 2⟩])) :=
  ingest_creates (by decide) (by decide) (by decide) (by simp) "a1:0"

private def userRow (n : Nat) : LogRow :=
  ⟨99, some { type := "user", uuid := "u" ++ toString n, message := some (.string "hi") }⟩

/-- A first read of fifty-one messages creates no item of the oldest one. -/
theorem ingest_skips_oldest : let log := (List.range 51).map userRow
    "u0:0" ∈ itemIds (parseBetween log (firstWindow log ⟨5100, 1⟩) 5100) ∧
      "u0:0" ∉ (ingestAll log ⟨none, []⟩ [⟨5100, 1⟩]).ids := by
  decide +kernel

/-- A window that begins between a call and its result makes the result an item of its own. -/
example : let log : List LogRow := [⟨99, some callRow⟩, ⟨300000, none⟩, ⟨99, some resultRow⟩]
    "r1:0" ∈ (ingestAll log ⟨none, []⟩ [⟨300201, 1⟩, ⟨300201, 2⟩]).ids := by
  decide

end Sightr
