import Sightr.Journal.Ingest
import Sightr.Lib.Runs

/-!
# Reading a growing log by its bytes

`TranscriptStore.readSince` of `bridge/journal/store.ts` on the bytes of one log, which may hold anything: characters
of several bytes, blank lines, a last line that is not written to its end. Each read is given what the one before it
saved.
-/

namespace Sightr.ByteLog

def NEWLINE : UInt8 := 10

def firstNewline (bytes : List UInt8) : Nat :=
  match bytes.findIdx? (· = NEWLINE) with
  | some i => i + 1
  | none => 0

def lastNewline (bytes : List UInt8) : Nat :=
  match bytes.reverse.findIdx? (· = NEWLINE) with
  | some i => bytes.length - i
  | none => 0

/-- What the parser is given: bytes of the log, and where they stand in it. -/
structure ParsedRange where
  byteOffset : Nat
  bytes : List UInt8
  deriving DecidableEq

def ParsedRange.stop (range : ParsedRange) : Nat := range.byteOffset + range.bytes.length

inductive Result
  | unchanged
  | read (parsed : Option ParsedRange) (nextOffset size : Nat) (mtimeMs : Int) (reset fromStart : Bool)
  deriving DecidableEq

def readSince (log : List UInt8) (stat : FileStat) (saved : Option SavedRead) : Result :=
  if saved.any fun saved => stat.size = saved.size && stat.mtimeMs = saved.mtimeMs then .unchanged
  else
    let reset := saved.all fun saved => stat.size < saved.offset
    let offset := (saved.map (·.offset)).getD 0
    let start := if reset then stat.size - MAX_TRANSCRIPT_BYTES else offset - OVERLAP_BYTES
    let bytes := (log.take stat.size).drop start
    let first := if start = 0 then 0 else firstNewline bytes
    let last := lastNewline bytes
    let hasLines := (start = 0 || first > 0) && last > first
    let nextOffset := if hasLines then start + last else if reset then start + first else offset
    .read (if hasLines then some ⟨start + first, (bytes.take last).drop first⟩ else none)
      nextOffset stat.size stat.mtimeMs reset (start = 0)

/-! ### Newlines -/

theorem firstNewline_cases (bytes : List UInt8) : firstNewline bytes = 0 ∧ (∀ i : Nat, bytes[i]? ≠ some NEWLINE) ∨
      ∃ i : Nat, firstNewline bytes = i + 1 ∧ bytes[i]? = some NEWLINE ∧ ∀ j < i, bytes[j]? ≠ some NEWLINE := by
  unfold firstNewline
  cases hfound : bytes.findIdx? (· = NEWLINE) with
  | none =>
    refine .inl ⟨rfl, fun i hi => ?_⟩
    have hno := List.findIdx?_eq_none_iff.mp hfound NEWLINE (List.mem_of_getElem? hi)
    simp at hno
  | some i =>
    obtain ⟨hlt, hi, hbefore⟩ := List.findIdx?_eq_some_iff_getElem.mp hfound
    rw [decide_eq_true_eq] at hi
    refine .inr ⟨i, rfl, List.getElem?_eq_some_iff.mpr ⟨hlt, hi⟩, fun j hj hnl => ?_⟩
    obtain ⟨hj', hnl⟩ := List.getElem?_eq_some_iff.mp hnl
    exact hbefore j hj (decide_eq_true hnl)

theorem lastNewline_cases (bytes : List UInt8) : lastNewline bytes = 0 ∧ (∀ i : Nat, bytes[i]? ≠ some NEWLINE) ∨
      ∃ i : Nat, lastNewline bytes = i + 1 ∧ bytes[i]? = some NEWLINE ∧ ∀ j, i < j → bytes[j]? ≠ some NEWLINE := by
  have hreverse (j : Nat) (hj : j < bytes.length) : bytes[j]? = bytes.reverse[bytes.length - 1 - j]? := by
    rw [List.getElem?_reverse (by omega)]
    congr 1
    omega
  have hfirst := firstNewline_cases bytes.reverse
  unfold firstNewline at hfirst
  unfold lastNewline
  cases hfound : bytes.reverse.findIdx? (· = NEWLINE) with
  | none =>
    rw [hfound] at hfirst
    obtain ⟨-, hno⟩ | ⟨i, hi, -⟩ := hfirst
    · refine .inl ⟨rfl, fun i hi => hno (bytes.length - 1 - i) ?_⟩
      rw [← hreverse i (List.getElem?_eq_some_iff.mp hi).1, hi]
    · cases hi
  | some k =>
    rw [hfound] at hfirst
    obtain ⟨hzero, -⟩ | ⟨i, hi, hnl, hbefore⟩ := hfirst
    · cases hzero
    · obtain rfl : k = i := Nat.succ.inj hi
      have hlt : k < bytes.length := by simpa using (List.getElem?_eq_some_iff.mp hnl).1
      refine .inr ⟨bytes.length - 1 - k, by dsimp only; omega, ?_, fun j hj hjnl => ?_⟩
      · rw [hreverse _ (by omega), show bytes.length - 1 - (bytes.length - 1 - k) = k by omega, hnl]
      · have hjlt := (List.getElem?_eq_some_iff.mp hjnl).1
        refine hbefore (bytes.length - 1 - j) (by omega) ?_
        rw [← hreverse j hjlt, hjnl]

/-- The start of a line: the log's, or just after a newline. -/
def LineStart (log : List UInt8) (pos : Nat) : Prop := pos = 0 ∨ ∃ i : Nat, pos = i + 1 ∧ log[i]? = some NEWLINE

structure IsLine (log : List UInt8) (head stop : Nat) : Prop where
  start : LineStart log head
  newline : ∃ i : Nat, stop = i + 1 ∧ head ≤ i ∧ log[i]? = some NEWLINE ∧
    ∀ j : Nat, head ≤ j → j < i → log[j]? ≠ some NEWLINE

structure WholeLines (log : List UInt8) (size : Nat) (range : ParsedRange) : Prop where
  start : LineStart log range.byteOffset
  stop : LineStart log range.stop
  nonempty : range.byteOffset < range.stop
  bytes : range.bytes = (log.take range.stop).drop range.byteOffset
  /-- What stands behind the last newline is left. -/
  complete : ∀ pos, (∀ i, pos ≤ i → i < size → log[i]? ≠ some NEWLINE) → range.stop ≤ pos

section

variable {log : List UInt8} {offset size start head stop : Nat}

theorem LineStart.le (h : LineStart log offset) : offset ≤ log.length := by
  obtain rfl | ⟨i, rfl, hi⟩ := h
  · exact Nat.zero_le _
  · exact (List.getElem?_eq_some_iff.mp hi).1

theorem IsLine.le_head (h : IsLine log head stop) (hoffset : LineStart log offset) (hlt : offset < stop) :
    offset ≤ head := by
  obtain ⟨i, rfl, hi, -, hinside⟩ := h.newline
  obtain rfl | ⟨j, rfl, hj⟩ := hoffset
  · exact Nat.zero_le _
  · by_contra hbefore
    exact hinside j (by omega) (by omega) hj

theorem start_le {first : Nat} (hoffset : LineStart log offset) (hstart : start = 0 ∨ start < offset)
    (hfirst : first = if start = 0 then 0 else firstNewline (log.drop start)) : start + first ≤ offset := by
  obtain rfl | ⟨j, rfl, hj⟩ := hoffset
  · obtain rfl | hlt := hstart
    · rw [hfirst, if_pos rfl]
    · omega
  · split_ifs at hfirst with hzero
    · omega
    · obtain ⟨hnone, -⟩ | ⟨k, hk, -, hbefore⟩ := firstNewline_cases (log.drop start)
      · omega
      · by_contra hlt
        refine hbefore (j - start) (by omega) ?_
        rw [List.getElem?_drop, show start + (j - start) = j by omega, hj]

/-- What a read parses when it begins before the saved offset: whole lines up to the log's last newline, those behind
the offset among them. -/
theorem read_lines (hoffset : LineStart log offset) (hstart : start = 0 ∨ start < offset) {first last : Nat}
    (hfirst : first = if start = 0 then 0 else firstNewline (log.drop start))
    (hlast : last = lastNewline (log.drop start)) :
    (((start = 0 || first > 0) && last > first) = true → offset ≤ start + last ∧
        start + first ≤ offset ∧ WholeLines log log.length ⟨start + first, ((log.drop start).take last).drop first⟩ ∧
        start + first + (((log.drop start).take last).drop first).length = start + last ∧ start + last ≤ log.length ∧
        ∀ i : Nat, start + last ≤ i → log[i]? ≠ some NEWLINE) ∧
      (((start = 0 || first > 0) && last > first) = false → ∀ i : Nat, offset ≤ i → log[i]? ≠ some NEWLINE) := by
  have hget (k : Nat) : (log.drop start)[k]? = log[start + k]? := List.getElem?_drop
  have hle : start + first ≤ offset := start_le hoffset hstart hfirst
  obtain ⟨hzero, hno⟩ | ⟨i, hi, hnl, hafter⟩ := lastNewline_cases (log.drop start)
  · -- Nothing but a part of a line.
    refine ⟨fun hlines => ?_, fun _ i hi hnl => hno (i - start) ?_⟩
    · simp only [Bool.and_eq_true, decide_eq_true_eq] at hlines
      omega
    · rw [hget, show start + (i - start) = i by omega, hnl]
  rw [hget] at hnl
  have hlt := (List.getElem?_eq_some_iff.mp hnl).1
  have hoffset' : offset ≤ start + last := by
    obtain rfl | ⟨j, rfl, hj⟩ := hoffset
    · exact Nat.zero_le _
    · by_contra hbehind
      refine hafter (j - start) (by omega) ?_
      rw [hget, show start + (j - start) = j by omega, hj]
  have hrest (k : Nat) (hk : start + last ≤ k) : log[k]? ≠ some NEWLINE := by
    intro hknl
    refine hafter (k - start) (by omega) ?_
    rw [hget, show start + (k - start) = k by omega, hknl]
  refine ⟨fun hlines => ?_, fun hlines k hk => ?_⟩
  · simp only [Bool.and_eq_true, Bool.or_eq_true, decide_eq_true_eq] at hlines
    have hlength : (((log.drop start).take last).drop first).length = last - first := by
      rw [List.length_drop, List.length_take, List.length_drop]
      omega
    have hstop : start + first + (((log.drop start).take last).drop first).length = start + last := by omega
    refine ⟨hoffset', hle, ⟨?_, ?_, ?_, ?_, ?_⟩, hstop, by omega, hrest⟩
    · change LineStart log (start + first)
      rw [hfirst] at hlines ⊢
      split_ifs with hzero
      · exact .inl (by omega)
      · obtain ⟨hnone, -⟩ | ⟨k, hk, hknl, -⟩ := firstNewline_cases (log.drop start)
        · simp [hzero, hnone] at hlines
        · exact .inr ⟨start + k, by omega, hget k ▸ hknl⟩
    · exact .inr ⟨start + i, by rw [ParsedRange.stop]; dsimp only; omega, hnl⟩
    · rw [ParsedRange.stop]
      dsimp only
      omega
    · rw [ParsedRange.stop]
      dsimp only
      rw [hstop, List.take_drop, List.drop_drop]
    · intro pos hpos
      rw [ParsedRange.stop]
      by_contra hlate
      dsimp only at hlate
      exact hpos (start + i) (by omega) hlt hnl
  · by_cases hbehind : start + last ≤ k
    · exact hrest k hbehind
    · -- The only newline is the one before the offset.
      exfalso
      simp only [Bool.and_eq_false_iff, Bool.or_eq_false_iff, decide_eq_false_iff_not] at hlines
      split_ifs at hfirst with hzero
      · simp only [hzero, not_true, false_and, false_or] at hlines
        omega
      · obtain ⟨hnone, hno⟩ | ⟨n, hn, -⟩ := firstNewline_cases (log.drop start)
        · exact hno i (hget i ▸ hnl)
        · obtain ⟨-, hzero'⟩ | hshort := hlines <;> omega

/-- One read of the whole log: nothing is parsed and the offset stays, or whole lines up to the new offset are. -/
theorem readSince_spec {mtimeMs at_ : Int} {saved : Option SavedRead} {parsed : Option ParsedRange} {nextOffset : Nat}
    {reset fromStart : Bool} (hoffset : LineStart log ((saved.map (·.offset)).getD 0))
    (hle : ∀ old ∈ saved, old.offset ≤ log.length) (hshort : saved = none → log.length < MAX_TRANSCRIPT_BYTES)
    (hread : readSince log ⟨log.length, mtimeMs⟩ saved = .read parsed nextOffset size at_ reset fromStart) :
    size = log.length ∧ (saved.map (·.offset)).getD 0 ≤ nextOffset ∧ nextOffset ≤ log.length ∧
      (∀ i : Nat, nextOffset ≤ i → log[i]? ≠ some NEWLINE) ∧
      (parsed = none ∧ nextOffset = (saved.map (·.offset)).getD 0 ∨
        ∃ range, parsed = some range ∧ WholeLines log log.length range ∧ range.stop = nextOffset ∧
          range.byteOffset ≤ (saved.map (·.offset)).getD 0) := by
  by_cases hsame : (saved.any fun saved => log.length = saved.size && mtimeMs = saved.mtimeMs) = true
  · rw [readSince, if_pos hsame] at hread
    cases hread
  rw [readSince, if_neg hsame] at hread
  simp only [List.take_length] at hread
  -- The reading begins at zero, or before the offset; a reset begins at zero and finds the offset there.
  have hreset : (saved.all fun saved => log.length < saved.offset) = true →
      log.length - MAX_TRANSCRIPT_BYTES = 0 ∧ (saved.map (·.offset)).getD 0 = 0 := by
    intro hall
    cases saved with
    | none => exact ⟨Nat.sub_eq_zero_of_le (hshort rfl).le, rfl⟩
    | some old =>
      rw [Option.all_some, decide_eq_true_eq] at hall
      exact absurd (hle old rfl) hall.not_ge
  generalize hoffsetAt : (saved.map (·.offset)).getD 0 = offset at *
  generalize hstartAt : (if (saved.all fun saved => decide (log.length < saved.offset)) = true then
    log.length - MAX_TRANSCRIPT_BYTES else offset - OVERLAP_BYTES) = start at hread
  have hstart : start = 0 ∨ start < offset := by
    rw [← hstartAt]
    split_ifs with hall
    · exact .inl (hreset hall).1
    · rw [OVERLAP_BYTES]
      omega
  obtain ⟨hlines, hnone⟩ := read_lines hoffset hstart rfl rfl
  generalize hfirstAt : (if start = 0 then 0 else firstNewline (log.drop start)) = first at hread hlines hnone
  generalize lastNewline (log.drop start) = last at hread hlines hnone
  injection hread with hparsed hnext hsize
  cases hhas : ((start = 0 || first > 0) && last > first) with
  | false =>
    simp only [hhas, Bool.false_eq_true, if_false] at hparsed hnext
    have hnextOffset : nextOffset = offset := by
      rw [← hnext]
      split_ifs with hall
      · obtain ⟨hzero, hoffset⟩ := hreset hall
        rw [if_pos hall] at hstartAt
        rw [if_pos (hstartAt.symm.trans hzero)] at hfirstAt
        omega
      · rfl
    refine ⟨hsize.symm, hnextOffset.ge, hnextOffset ▸ hoffset.le, hnextOffset ▸ hnone hhas, .inl ⟨hparsed.symm,
      hnextOffset⟩⟩
  | true =>
    simp only [hhas, if_true] at hparsed hnext
    obtain ⟨hforward, hfirst, hwhole, hstop, hle, hrest⟩ := hlines hhas
    refine ⟨hsize.symm, hnext ▸ hforward, hnext ▸ hle, hnext ▸ hrest, .inr ⟨_, hparsed.symm, hwhole, ?_, hfirst⟩⟩
    rw [← hnext, ← hstop]
    rfl

end

/-! ### The log grows -/

section

variable {log : List UInt8} {pos head stop size : Nat} {range : ParsedRange}

theorem LineStart.append (h : LineStart log pos) (bytes : List UInt8) : LineStart (log ++ bytes) pos := by
  obtain rfl | ⟨i, rfl, hi⟩ := h
  · exact .inl rfl
  · exact .inr ⟨i, rfl, by rw [List.getElem?_append_left (List.getElem?_eq_some_iff.mp hi).1, hi]⟩

theorem WholeLines.append (h : WholeLines log size range) (hsize : size ≤ log.length) (bytes : List UInt8) :
    WholeLines (log ++ bytes) size range where
  start := h.start.append bytes
  stop := h.stop.append bytes
  nonempty := h.nonempty
  bytes := by rw [List.take_append_of_le_length h.stop.le, h.bytes]
  complete pos hpos := h.complete pos fun i hi hlt hnl =>
    hpos i hi hlt (by rw [List.getElem?_append_left (by omega), hnl])

theorem IsLine.of_append {bytes : List UInt8} (h : IsLine (log ++ bytes) head stop) (hle : stop ≤ log.length) :
    IsLine log head stop := by
  obtain ⟨hstart, i, rfl, hi, hnl, hinside⟩ := h
  have hget (j : Nat) (hj : j ≤ i) : (log ++ bytes)[j]? = log[j]? := List.getElem?_append_left (by omega)
  refine ⟨?_, i, rfl, hi, hget i le_rfl ▸ hnl, fun j hj hlt => hget j hlt.le ▸ hinside j hj hlt⟩
  obtain rfl | ⟨j, rfl, hj⟩ := hstart
  · exact .inl rfl
  · exact .inr ⟨j, rfl, hget j (by omega) ▸ hj⟩

end

/-! ### Every run of reads -/

structure Call where
  size : Nat
  parsed : Option ParsedRange
  nextOffset : Nat

structure World where
  log : List UInt8
  mtimeMs : Int
  saved : Option SavedRead
  /-- The reads that were not spared, newest first. -/
  calls : List Call

namespace World

def start (mtimeMs : Int) : World := ⟨[], mtimeMs, none, []⟩

inductive Action
  | grow (bytes : List UInt8) (mtimeMs : Int)
  | read

variable (w : World)

def step : Action → Option World
  | .grow bytes mtimeMs => some { w with log := w.log ++ bytes, mtimeMs }
  | .read =>
    match readSince w.log ⟨w.log.length, w.mtimeMs⟩ w.saved with
    | .unchanged => some w
    | .read parsed nextOffset size mtimeMs _ _ =>
      some { w with saved := some ⟨nextOffset, size, mtimeMs⟩, calls := ⟨size, parsed, nextOffset⟩ :: w.calls }

/-- The first read finds a log that is shorter than what a reset reads. -/
def shortFirst (action : Action) : Bool :=
  match action with
  | .read => w.saved.isSome || w.log.length < MAX_TRANSCRIPT_BYTES
  | .grow .. => true

def Parsed (head stop : Nat) : Prop :=
  ∃ call ∈ w.calls, ∃ range ∈ call.parsed, range.byteOffset ≤ head ∧ stop ≤ range.stop

/-- What holds of the reads of a log that only grows. -/
structure Covers : Prop where
  /-- The offset is at a line start and never goes back. -/
  lineStart : ∀ call ∈ w.calls, LineStart w.log call.nextOffset
  forward : (w.calls.map Call.nextOffset).Pairwise (· ≥ ·)
  whole : ∀ call ∈ w.calls, ∀ range ∈ call.parsed, WholeLines w.log call.size range
  /-- Every line that was complete at the last read is parsed. -/
  parsed : ∀ saved ∈ w.saved, ∀ head stop, IsLine w.log head stop → stop ≤ saved.size → w.Parsed head stop

structure Sound : Prop extends Covers w where
  fresh : w.saved = none → w.calls = []
  last : ∀ saved ∈ w.saved, (w.calls.head?.map Call.nextOffset) = some saved.offset
  sizes : ∀ call ∈ w.calls, call.size ≤ w.log.length
  size : ∀ saved ∈ w.saved, saved.size ≤ w.log.length ∧ saved.offset ≤ saved.size
  /-- No line is complete between the offset and the size. -/
  rest : ∀ saved ∈ w.saved, ∀ i : Nat, saved.offset ≤ i → i < saved.size → w.log[i]? ≠ some NEWLINE

variable {w} {next : World}

theorem Sound.start (mtimeMs : Int) : (start mtimeMs).Sound where
  lineStart call h := by cases h
  forward := List.Pairwise.nil
  whole call h := by cases h
  parsed saved h := by cases h
  fresh _ := rfl
  last saved h := by cases h
  sizes call h := by cases h
  size saved h := by cases h
  rest saved h := by cases h

section

variable (h : w.Sound)
include h

theorem Sound.grow (bytes : List UInt8) (mtimeMs : Int) : Sound { w with log := w.log ++ bytes, mtimeMs } := { h with
  lineStart := fun call hcall => (h.lineStart call hcall).append bytes
  whole := fun call hcall range hrange => (h.whole call hcall range hrange).append (h.sizes call hcall) bytes
  parsed := fun saved hsaved head stop hline hle =>
    h.parsed saved hsaved head stop (hline.of_append (hle.trans (h.size saved hsaved).1)) hle
  sizes := fun call hcall => (h.sizes call hcall).trans (by simp)
  size := fun saved hsaved => ⟨(h.size saved hsaved).1.trans (by simp), (h.size saved hsaved).2⟩
  rest := fun saved hsaved i hi hlt hnl => by
    have hsize := (h.size saved hsaved).1
    rw [List.getElem?_append_left (by omega)] at hnl
    exact h.rest saved hsaved i hi hlt hnl }

theorem Sound.offset_lineStart : LineStart w.log ((w.saved.map (·.offset)).getD 0) := by
  cases hsaved : w.saved with
  | none => exact .inl rfl
  | some old =>
    obtain ⟨call, hcall, hoffset⟩ := Option.map_eq_some_iff.mp (h.last old hsaved)
    change LineStart w.log old.offset
    exact hoffset ▸ h.lineStart call (List.mem_of_head? hcall)

theorem Sound.le_offset (offset : Nat) (hoffset : offset ∈ w.calls.map Call.nextOffset) :
    offset ≤ (w.saved.map (·.offset)).getD 0 := by
  cases hsaved : w.saved with
  | none =>
    rw [h.fresh hsaved] at hoffset
    cases hoffset
  | some old =>
    have hforward := h.forward
    have hlast := h.last old hsaved
    rw [← List.head?_map] at hlast
    obtain ⟨rest, hcalls⟩ := List.head?_eq_some_iff.mp hlast
    rw [hcalls] at hforward hoffset
    rcases List.mem_cons.mp hoffset with rfl | hrest
    · exact le_rfl
    · exact (List.pairwise_cons.mp hforward).1 offset hrest

theorem Sound.parsed_of_le {head stop : Nat} (hline : IsLine w.log head stop)
    (hle : stop ≤ (w.saved.map (·.offset)).getD 0) : w.Parsed head stop := by
  cases hsaved : w.saved with
  | none =>
    obtain ⟨-, i, rfl, -⟩ := hline
    rw [hsaved] at hle
    exact absurd hle (Nat.not_succ_le_zero i)
  | some old =>
    rw [hsaved] at hle
    exact h.parsed old hsaved head stop hline (hle.trans (h.size old hsaved).2)

theorem Sound.read (hshort : w.saved = none → w.log.length < MAX_TRANSCRIPT_BYTES) {at_ : Int}
    {parsed : Option ParsedRange} {nextOffset size : Nat} {reset fromStart : Bool}
    (hread : readSince w.log ⟨w.log.length, w.mtimeMs⟩ w.saved = .read parsed nextOffset size at_ reset fromStart) :
    Sound { w with
      saved := some ⟨nextOffset, size, at_⟩, calls := ⟨size, parsed, nextOffset⟩ :: w.calls } := by
  obtain ⟨rfl, hforward, hle, hrest, hparsed⟩ := readSince_spec h.offset_lineStart
    (fun old hold => (h.size old hold).2.trans (h.size old hold).1) hshort hread
  have hstart : LineStart w.log nextOffset := by
    obtain ⟨-, rfl⟩ | ⟨range, -, hwhole, rfl, -⟩ := hparsed
    · exact h.offset_lineStart
    · exact hwhole.stop
  refine ⟨⟨?_, ?_, ?_, ?_⟩, nofun, ?_, ?_, ?_, ?_⟩
  · exact List.forall_mem_cons.mpr ⟨hstart, h.lineStart⟩
  · exact List.pairwise_cons.mpr ⟨fun other hother => (h.le_offset other hother).trans hforward, h.forward⟩
  · refine List.forall_mem_cons.mpr ⟨fun range hrange => ?_, h.whole⟩
    obtain ⟨hnone, -⟩ | ⟨found, hfound, hwhole, -⟩ := hparsed
    · rw [hnone] at hrange
      cases hrange
    · rw [hfound] at hrange
      exact Option.some.inj hrange ▸ hwhole
  · rintro saved - head stop hline -
    have hstop : stop ≤ nextOffset := by
      obtain ⟨-, i, rfl, -, hnl, -⟩ := hline
      by_contra hlate
      exact hrest i (by omega) hnl
    have hearlier (hle : stop ≤ (w.saved.map (·.offset)).getD 0) : Parsed { w with
          saved := some ⟨nextOffset, w.log.length, at_⟩, calls := ⟨w.log.length, parsed,
      nextOffset⟩ :: w.calls } head stop := by
      obtain ⟨call, hcall, range, hrange, hin⟩ := h.parsed_of_le hline hle
      exact ⟨call, List.mem_cons_of_mem _ hcall, range, hrange, hin⟩
    obtain ⟨-, rfl⟩ | ⟨range, hrange, -, rfl, hbefore⟩ := hparsed
    · exact hearlier hstop
    · by_cases hle : stop ≤ (w.saved.map (·.offset)).getD 0
      · exact hearlier hle
      · have hhead := hline.le_head h.offset_lineStart (not_le.mp hle)
        exact ⟨_, List.mem_cons_self .., range, hrange, hbefore.trans hhead, hstop⟩
  · rintro saved hsaved
    cases hsaved
    rfl
  · exact List.forall_mem_cons.mpr ⟨le_rfl, h.sizes⟩
  · rintro saved hsaved
    cases hsaved
    exact ⟨le_rfl, hle⟩
  · rintro saved hsaved i hi -
    cases hsaved
    exact hrest i hi

theorem Sound.step {action : Action} (hshort : w.shortFirst action = true)
    (hstep : w.step action = some next) : next.Sound := by
  cases action with
  | grow bytes mtimeMs =>
    cases hstep
    exact h.grow bytes mtimeMs
  | read =>
    simp only [World.step] at hstep
    split at hstep
    · cases hstep
      exact h
    · next parsed nextOffset size at_ reset fromStart hread =>
      cases hstep
      refine h.read (fun hnone => ?_) hread
      simpa [shortFirst, hnone] using hshort

end

theorem size_of_read (hread : w.step .read = some next) : next.saved.map (·.size) = some w.log.length := by
  simp only [World.step] at hread
  split at hread
  · next hsame =>
    cases hread
    rw [readSince] at hsame
    split_ifs at hsame with hany
    obtain ⟨saved, hsaved, hequal⟩ := (Option.any_eq_true _ _).mp hany
    rw [Bool.and_eq_true, decide_eq_true_eq] at hequal
    rw [hsaved, Option.map_some, ← hequal.1]
  · next parsed nextOffset size at_ reset fromStart hsame =>
    cases hread
    simp only [readSince] at hsame
    split at hsame
    · cases hsame
    · injection hsame with _ _ hsize
      rw [← hsize]
      rfl

/-- In every run of a log that only grows, whose first read finds less than a reset reads: the offset goes from line
start to line start and never back; every read parses whole lines and leaves what stands behind the last newline; and
every line that was complete at the last read has been parsed. -/
theorem covers_of_run {mtimeMs : Int}
    (hrun : Runs.Run World.step (fun w action => w.shortFirst action = true) (start mtimeMs) w) :
    w.Covers ∧ ∀ next, w.step .read = some next → next.saved.map (·.size) = some w.log.length :=
  ⟨(hrun.invariant (P := Sound) (fun _ _ _ h hshort hstep => h.step hshort hstep) (Sound.start mtimeMs)).toCovers,
    fun _ => size_of_read⟩

/-- A line is written in two pieces, with a character of three bytes and a blank line before it. -/
theorem covers_of_run_pieces : ∃ w : World,
    w.calls.map Call.parsed = [some ⟨0, [0xE2, 0x82, 0xAC, 10, 10, 97, 98, 10]⟩, some ⟨0, [0xE2, 0x82, 0xAC, 10,
      10]⟩] ∧
      w.Covers ∧ w.Parsed 5 8 := by
  obtain ⟨w, hrun, hw⟩ := Runs.exists_run_of_exec
    (show (Runs.exec World.step (fun w action => w.shortFirst action = true) (start 0)
      [.grow [0xE2, 0x82, 0xAC, 10, 10, 97] 1, .read, .read, .grow [98, 10] 1, .read]).any
      (fun w => w.calls.map Call.parsed =
        [some ⟨0, [0xE2, 0x82, 0xAC, 10, 10, 97, 98, 10]⟩, some ⟨0, [0xE2, 0x82, 0xAC, 10, 10]⟩] &&
          w.log = [0xE2, 0x82, 0xAC, 10, 10, 97, 98, 10] && w.saved.map (·.size) = some 8) = true by decide +kernel)
  simp only [Bool.and_eq_true, decide_eq_true_eq] at hw
  obtain ⟨⟨hcalls, hlog⟩, hsize⟩ := hw
  obtain ⟨saved, hsaved, hlength⟩ := Option.map_eq_some_iff.mp hsize
  have hcovers := (covers_of_run hrun).1
  refine ⟨w, hcalls, hcovers, hcovers.parsed saved hsaved 5 8 ?_ hlength.ge⟩
  rw [hlog]
  refine ⟨.inr ⟨4, rfl, rfl⟩, 7, rfl, by decide, rfl, fun j hj hlt => ?_⟩
  obtain rfl | rfl : j = 5 ∨ j = 6 := by omega
  · decide
  · decide

end World

end Sightr.ByteLog
