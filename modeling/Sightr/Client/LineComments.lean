import Mathlib.Data.List.MinMax
import Mathlib.Data.Nat.Dist

/-!
# Line comments on a diff

`quoteFor` and `locateComment` of `web2/src/components/diffs/lineSelection.ts`, and `reanchorFile` of
`web2/src/state/lineComments.ts`. A comment knows its lines by a hash; `quoteFor` reads a range from the first hunk
that has its numbers, and the search for a comment's lines looks through every hunk.
-/

namespace Sightr.LineComments

inductive DiffSide
  | old
  | new
  deriving DecidableEq

inductive LineKind
  | context
  | add
  | del
  deriving DecidableEq

abbrev Text := List Char

structure ParsedLine where
  kind : LineKind
  text : Text
  oldLine : Option Nat
  newLine : Option Nat
  deriving DecidableEq

namespace ParsedLine

def numberOn (line : ParsedLine) : DiffSide → Option Nat
  | .old => if line.kind = .add then none else line.oldLine
  | .new => if line.kind = .del then none else line.newLine

/-- The line as diff excerpt, a CRLF file's `\r` dropped. -/
def shown (line : ParsedLine) : Text :=
  (match line.kind with | .context => ' ' | .add => '+' | .del => '-') ::
    if line.text.getLast? = some '\r' then line.text.dropLast else line.text

end ParsedLine

structure Row where
  n : Nat
  text : Text
  deriving DecidableEq

def rowsOn (side : DiffSide) (lines : List ParsedLine) : List Row :=
  lines.filterMap fun line => (line.numberOn side).map fun n => { n, text := line.shown }

structure ParsedHunk where
  lines : List ParsedLine
  /-- `parsePatch` counts each side's lines from the number in the header. -/
  numbered : ∀ side, ∃ start, (rowsOn side lines).map Row.n = List.range' start (rowsOn side lines).length

structure Range where
  start : Nat
  end_ : Nat
  deriving DecidableEq

namespace ParsedHunk

def rows (hunk : ParsedHunk) (side : DiffSide) : List Row := rowsOn side hunk.lines

def quote (hunk : ParsedHunk) (side : DiffSide) (range : Range) : Option (List Text) :=
  let out := ((hunk.rows side).filter fun row => range.start ≤ row.n ∧ row.n ≤ range.end_).map Row.text
  if out.length + range.start = range.end_ + 1 then some out else none

/-- The runs of `len` lines that are accepted, in order, each with its first and last number. -/
def search (hunk : ParsedHunk) (side : DiffSide) (len : Nat) (accept : List Text → Bool) : List Range :=
  let rows := hunk.rows side
  (List.range (rows.length + 1 - len)).filterMap fun i =>
    let window := (rows.drop i).take len
    if accept (window.map Row.text) then do
      let first ← window[0]?
      let last ← window[len - 1]?
      return ⟨first.n, last.n⟩
    else none

end ParsedHunk

def quoteFor (hunks : List ParsedHunk) (side : DiffSide) (range : Range) : Option (List Text) :=
  hunks.findSome? (·.quote side range)

inductive CommentState
  | pending
  | moved
  | outdated
  deriving DecidableEq

structure LineComment (η : Type*) where
  id : String
  path : String
  side : DiffSide
  range : Range
  hash : η
  quote : List Text
  note : String
  createdAt : Int
  state : CommentState
  deriving DecidableEq

inductive Anchored
  | anchored
  | moved (range : Range)
  | outdated

variable {η : Type*} [DecidableEq η] (blockHash : List Text → η)

def search (hunks : List ParsedHunk) (side : DiffSide) (len : Nat) (accept : List Text → Bool) : List Range :=
  hunks.flatMap (·.search side len accept)

/-- Of two runs as near the search keeps the one it met first. -/
def nearest (found : List Range) (at_ : Nat) : Option Range := found.argmin fun range => range.start.dist at_

def locateComment (hunks : List ParsedHunk) (c : LineComment η) : Anchored :=
  if (quoteFor hunks c.side c.range).map blockHash = some c.hash then .anchored
  else
    let len := c.range.end_ + 1 - c.range.start
    match nearest (search hunks c.side len fun lines => blockHash lines = c.hash) c.range.start with
    | some range => .moved range
    | none => .outdated

def reanchor (hunks : List ParsedHunk) (c : LineComment η) : LineComment η :=
  match locateComment blockHash hunks c with
  | .anchored => if c.state = .outdated then { c with state := .pending } else c
  | .moved range => { c with range, state := .moved }
  | .outdated => { c with state := .outdated }

def reanchorFile (path : String) (hunks : List ParsedHunk) (list : List (LineComment η)) : List (LineComment η) :=
  list.map fun c => if c.path ≠ path then c else reanchor blockHash hunks c

/-! ### What a hunk shows -/

namespace ParsedHunk

variable {hunk : ParsedHunk} {side : DiffSide} {start : Nat} {quoted : List Text} {range : Range}

/-- The hunk has, from this number on, a run of lines equal to the quoted ones. -/
def Shows (hunk : ParsedHunk) (side : DiffSide) (start : Nat) (quoted : List Text) : Prop :=
  ∃ i, (hunk.rows side)[i]?.map Row.n = some start ∧
    (((hunk.rows side).drop i).take quoted.length).map Row.text = quoted

theorem number_eq {rows : List Row} {first : Nat} (h : rows.map Row.n = List.range' first rows.length) {i n : Nat} :
    rows[i]?.map Row.n = some n ↔ i < rows.length ∧ first + i = n := by
  rw [← List.getElem?_map, h, List.getElem?_eq_some_iff]
  simp

theorem filter_rows {rows : List Row} {first : Nat} (h : rows.map Row.n = List.range' first rows.length)
    (range : Range) : rows.filter (fun row => range.start ≤ row.n ∧ row.n ≤ range.end_) =
      (rows.drop (range.start - first)).take (range.end_ + 1 - max first range.start) := by
  induction rows generalizing first with
  | nil => simp
  | cons row rest ih =>
    rw [List.map_cons, List.length_cons, List.range'_succ, List.cons.injEq] at h
    obtain ⟨rfl, hrest⟩ := h
    rw [List.filter_cons, ih hrest]
    obtain hbefore | hfrom := Nat.lt_or_ge row.n range.start
    · obtain ⟨j, hj⟩ : ∃ j, range.start = row.n + 1 + j := ⟨range.start - row.n - 1, by omega⟩
      have hdrop : range.start - row.n = j + 1 := by omega
      have hmax : max (row.n + 1) range.start = max row.n range.start := by omega
      simp [hdrop, hmax, Nat.not_le.mpr hbefore, show range.start - (row.n + 1) = j by omega]
    · have hdrop : range.start - (row.n + 1) = 0 := by omega
      have hmax : max (row.n + 1) range.start = row.n + 1 := by omega
      rw [hdrop, hmax, Nat.sub_eq_zero_of_le hfrom, max_eq_left hfrom]
      obtain hpast | hin := Nat.lt_or_ge range.end_ row.n
      · simp [Nat.not_le.mpr hpast, Nat.sub_eq_zero_of_le hpast, show range.end_ ≤ row.n by omega]
      · have htake : range.end_ + 1 - row.n = range.end_ + 1 - (row.n + 1) + 1 := by omega
        simp [htake, hfrom, hin]

/-- `quoteFor` takes a hunk that has all the numbers of the range, whatever lines they are. -/
theorem quote_eq_some (hne : quoted ≠ []) : hunk.quote side range = some quoted ↔
    quoted.length + range.start = range.end_ + 1 ∧ hunk.Shows side range.start quoted := by
  obtain ⟨first, hfirst⟩ := hunk.numbered side
  change (hunk.rows side).map Row.n = List.range' first (hunk.rows side).length at hfirst
  have hpos := List.length_pos_of_ne_nil hne
  unfold quote Shows
  rw [filter_rows hfirst]
  simp only [number_eq hfirst]
  constructor
  · intro h
    split_ifs at h with hlength
    obtain rfl := Option.some.inj h
    refine ⟨hlength, range.start - first, ?_, ?_⟩
    · simp only [List.length_map, List.length_take, List.length_drop] at hlength hpos
      omega
    · rw [List.length_map, List.length_take, ← List.take_eq_take_min]
  · rintro ⟨hlength, i, ⟨hi, hn⟩, htext⟩
    have hdrop : range.start - first = i := by omega
    have htake : range.end_ + 1 - max first range.start = quoted.length := by omega
    rw [hdrop, htake, htext, if_pos hlength]

theorem mem_search (hne : quoted ≠ []) : range ∈ hunk.search side quoted.length (fun lines => lines = quoted) ↔
    quoted.length + range.start = range.end_ + 1 ∧ hunk.Shows side range.start quoted := by
  obtain ⟨first, hfirst⟩ := hunk.numbered side
  change (hunk.rows side).map Row.n = List.range' first (hunk.rows side).length at hfirst
  have hpos := List.length_pos_of_ne_nil hne
  have hrow (i j : Nat) (hj : j < quoted.length) (hi : i + j < (hunk.rows side).length) :
      ∃ row, (((hunk.rows side).drop i).take quoted.length)[j]? = some row ∧ row.n = first + i + j := by
    rw [List.getElem?_take_of_lt hj, List.getElem?_drop]
    exact Option.map_eq_some_iff.mp ((number_eq hfirst).mpr ⟨hi, (Nat.add_assoc ..).symm⟩)
  unfold search Shows
  rw [List.mem_filterMap]
  simp only [number_eq hfirst, decide_eq_true_eq]
  constructor
  · rintro ⟨i, hi, hrange⟩
    rw [List.mem_range] at hi
    split_ifs at hrange with htext
    obtain ⟨row, hfound, hn⟩ := hrow i 0 hpos (by omega)
    obtain ⟨last, hfound', hn'⟩ := hrow i (quoted.length - 1) (by omega) (by omega)
    rw [hfound, hfound'] at hrange
    obtain rfl := Option.some.inj hrange
    exact ⟨by simp only; omega, i, ⟨by omega, by simp only; omega⟩, htext⟩
  · rintro ⟨hlength, i, ⟨hi, hn⟩, htext⟩
    have hcount := congrArg List.length htext
    simp only [List.length_map, List.length_take, List.length_drop] at hcount
    obtain ⟨row, hfound, hfirst⟩ := hrow i 0 hpos (by omega)
    obtain ⟨last, hfound', hlast⟩ := hrow i (quoted.length - 1) (by omega) (by omega)
    refine ⟨i, List.mem_range.mpr (by omega), ?_⟩
    rw [if_pos htext, hfound, hfound']
    refine congrArg some (Range.mk.injEq .. |>.mpr ⟨?_, ?_⟩) <;> omega

end ParsedHunk

variable {hunks : List ParsedHunk} {side : DiffSide} {quoted : List Text} {range : Range}

/-- The lines are in some hunk of the file from this number on. -/
def ShownAt (hunks : List ParsedHunk) (side : DiffSide) (quoted : List Text) (start : Nat) : Prop :=
  ∃ hunk ∈ hunks, hunk.Shows side start quoted

theorem mem_search (hne : quoted ≠ []) : range ∈ search hunks side quoted.length (fun lines => lines = quoted) ↔
    quoted.length + range.start = range.end_ + 1 ∧ ShownAt hunks side quoted range.start := by
  unfold search ShownAt
  rw [List.mem_flatMap, ← exists_and_left]
  refine exists_congr fun hunk => ?_
  rw [and_left_comm, ParsedHunk.mem_search hne]

theorem mem_search_of_shownAt (hne : quoted ≠ []) {start : Nat} (h : ShownAt hunks side quoted start) :
    ⟨start, quoted.length + start - 1⟩ ∈ search hunks side quoted.length (fun lines => lines = quoted) := by
  have hpos := List.length_pos_of_ne_nil hne
  exact (mem_search hne).mpr ⟨(Nat.sub_add_cancel (by omega)).symm, h⟩

/-! ### Re-anchoring -/

variable {blockHash} {c c' : LineComment η}

/-- The comment is about these lines: its hash is theirs, its range of their length. -/
structure Quotes (blockHash : List Text → η) (quoted : List Text) (c : LineComment η) : Prop where
  ne_nil : quoted ≠ []
  hash : c.hash = blockHash quoted
  length : quoted.length + c.range.start = c.range.end_ + 1

omit [DecidableEq η] in
/-- `addLineComment` takes the range and the lines of a quote on some version of the file, if there are any. -/
theorem quotes_of_quoteFor {earlier : List ParsedHunk} (hne : quoted ≠ []) (hhash : c.hash = blockHash quoted)
    (h : quoteFor earlier c.side c.range = some quoted) : Quotes blockHash quoted c := by
  obtain ⟨_, hunk, _, -, hquote, -⟩ := List.findSome?_eq_some_iff.mp h
  exact ⟨hne, hhash, (ParsedHunk.quote_eq_some hne |>.mp hquote).1⟩

/-- The first hunk that has all the numbers of the run shows the lines there. -/
def Unshadowed (hunks : List ParsedHunk) (side : DiffSide) (quoted : List Text) (start : Nat) : Prop :=
  ∃ before hunk after, hunks = before ++ hunk :: after ∧ hunk.Shows side start quoted ∧
    ∀ earlier ∈ before, ∀ other, other.length = quoted.length → ¬earlier.Shows side start other

theorem quoteFor_iff_unshadowed (hne : quoted ≠ []) {range : Range}
    (hlength : quoted.length + range.start = range.end_ + 1) :
    quoteFor hunks side range = some quoted ↔ Unshadowed hunks side quoted range.start := by
  unfold quoteFor Unshadowed
  rw [List.findSome?_eq_some_iff]
  refine exists_congr fun before => exists_congr fun hunk => exists_congr fun after => and_congr_right fun _ =>
    and_congr ((ParsedHunk.quote_eq_some hne).trans (and_iff_right hlength)) (forall₂_congr fun earlier _ => ?_)
  rw [Option.eq_none_iff_forall_ne_some]
  refine forall_congr' fun other => ⟨fun h hother hshows => ?_, fun h hquote => ?_⟩
  · have hne' : other ≠ [] := List.ne_nil_of_length_pos (hother ▸ List.length_pos_of_ne_nil hne)
    exact h ((ParsedHunk.quote_eq_some hne').mpr ⟨hother ▸ hlength, hshows⟩)
  · have hpos := List.length_pos_of_ne_nil hne
    have hother : other.length + range.start = range.end_ + 1 := by
      dsimp only [ParsedHunk.quote] at hquote
      split_ifs at hquote with hcount
      exact Option.some.inj hquote ▸ hcount
    have hne' : other ≠ [] := List.ne_nil_of_length_pos (by omega)
    exact h (by omega) ((ParsedHunk.quote_eq_some hne').mp hquote).2

/-- The comment after `reanchorFile` is where its lines are. -/
structure PointsAtItsLines (blockHash : List Text → η) (hunks : List ParsedHunk) (quoted : List Text)
    (c c' : LineComment η) : Prop where
  outdated : c'.state = .outdated ↔ ∀ start, ¬ShownAt hunks c.side quoted start
  nearest : c'.state ≠ .outdated → ShownAt hunks c.side quoted c'.range.start ∧
    ∀ start, ShownAt hunks c.side quoted start → c'.range.start.dist c.range.start ≤ start.dist c.range.start
  kept : ShownAt hunks c.side quoted c.range.start → c'.range = c.range
  quote : c'.state ≠ .outdated → quoteFor hunks c.side c'.range = some quoted
  fields : c' = { c with range := c'.range, state := c'.state }
  again : reanchor blockHash hunks c' = c'

theorem search_hash (hinj : Function.Injective blockHash) (h : Quotes blockHash quoted c) :
    search hunks c.side (c.range.end_ + 1 - c.range.start) (fun lines => blockHash lines = c.hash) =
      search hunks c.side quoted.length fun lines => lines = quoted := by
  have hlength : c.range.end_ + 1 - c.range.start = quoted.length := by
    have := h.length
    omega
  simp only [hlength, h.hash, hinj.eq_iff]

omit [DecidableEq η] in
theorem map_eq_some_hash (hinj : Function.Injective blockHash) (h : Quotes blockHash quoted c)
    (found : Option (List Text)) : found.map blockHash = some c.hash ↔ found = some quoted := by
  rw [h.hash, Option.map_eq_some_iff]
  exact ⟨fun ⟨_, hfound, hsame⟩ => hinj hsame ▸ hfound, fun hfound => ⟨_, hfound, rfl⟩⟩

/-- Where the lines are, nearest to a number. -/
def nearestShown (hunks : List ParsedHunk) (side : DiffSide) (quoted : List Text) (at_ : Nat) : Option Range :=
  nearest (search hunks side quoted.length fun lines => lines = quoted) at_

section

variable (hne : quoted ≠ [])
include hne

theorem nearestShown_eq_some {at_ : Nat} {range : Range}
    (h : nearestShown hunks side quoted at_ = some range) : quoted.length + range.start = range.end_ + 1 ∧
      ShownAt hunks side quoted range.start ∧
      ∀ start, ShownAt hunks side quoted start → range.start.dist at_ ≤ start.dist at_ := by
  obtain ⟨hlength, hshown⟩ := (mem_search hne).mp (List.argmin_mem h)
  exact ⟨hlength, hshown, fun start hstart => List.le_of_mem_argmin (mem_search_of_shownAt hne hstart) h⟩

theorem nearestShown_eq_none {at_ : Nat} (h : nearestShown hunks side quoted at_ = none)
    (start : Nat) : ¬ShownAt hunks side quoted start := by
  intro hstart
  have hmem := mem_search_of_shownAt hne hstart
  rw [List.argmin_eq_none.mp h] at hmem
  cases hmem

/-- Lines that are still at a number are nearest to it there. -/
theorem nearestShown_self {range : Range} (hlength : quoted.length + range.start = range.end_ + 1)
    (hshown : ShownAt hunks side quoted range.start) : nearestShown hunks side quoted range.start = some range := by
  cases h : nearestShown hunks side quoted range.start with
  | none => exact absurd hshown (nearestShown_eq_none hne h _)
  | some found =>
    obtain ⟨hlength', -, hnearest⟩ := nearestShown_eq_some hne h
    have hdist := hnearest _ hshown
    rw [Nat.dist_self, Nat.le_zero] at hdist
    have hstart := Nat.eq_of_dist_eq_zero hdist
    obtain ⟨start, end_⟩ := found
    obtain ⟨start', end_'⟩ := range
    simp only at hstart hlength hlength'
    simp only [Option.some.injEq, Range.mk.injEq]
    omega

end

section

variable (hinj : Function.Injective blockHash)
include hinj

section

variable (h : Quotes blockHash quoted c)
include h

section

variable (hquote : quoteFor hunks c.side c.range = some quoted)
include hquote

theorem reanchor_of_quoteFor : reanchor blockHash hunks c =
      if c.state = .outdated then { c with state := .pending } else c := by
  rw [reanchor, locateComment, if_pos ((map_eq_some_hash hinj h _).mpr hquote)]

theorem reanchor_self (hstate : c.state ≠ .outdated) : reanchor blockHash hunks c = c := by
  rw [reanchor_of_quoteFor hinj h hquote, if_neg hstate]

end

theorem reanchor_of_not_quoteFor (hquote : quoteFor hunks c.side c.range ≠ some quoted) : reanchor blockHash hunks c =
      match nearestShown hunks c.side quoted c.range.start with
      | some range => { c with range, state := .moved }
      | none => { c with state := .outdated } := by
  rw [reanchor, locateComment, if_neg fun hsame => hquote ((map_eq_some_hash hinj h _).mp hsame)]
  dsimp only
  rw [search_hash hinj h, ← nearestShown]
  cases nearestShown hunks c.side quoted c.range.start <;> rfl

end

end

omit [DecidableEq η] in
theorem shownAt_of_quoteFor (h : Quotes blockHash quoted c) (hquote : quoteFor hunks c.side c.range = some quoted) :
    ShownAt hunks c.side quoted c.range.start := by
  obtain ⟨_, hunk, _, rfl, hshows, -⟩ := (quoteFor_iff_unshadowed h.ne_nil h.length).mp hquote
  exact ⟨hunk, by simp, hshows⟩

section

variable (hinj : Function.Injective blockHash)
include hinj

section

variable (h : Quotes blockHash quoted c)
include h

theorem pointsAtItsLines_of_quoteFor (hquote : quoteFor hunks c.side c.range = some quoted) :
    PointsAtItsLines blockHash hunks quoted c (reanchor blockHash hunks c) := by
  have hshown := shownAt_of_quoteFor h hquote
  obtain ⟨state, hstate, hc'⟩ : ∃ state, state ≠ .outdated ∧
      reanchor blockHash hunks c = { c with state } := by
    rw [reanchor_of_quoteFor hinj h hquote]
    split_ifs with hstate
    · exact ⟨.pending, by simp, rfl⟩
    · exact ⟨c.state, hstate, rfl⟩
  rw [hc']
  constructor
  case outdated => exact iff_of_false hstate fun hnone => hnone _ hshown
  case nearest => exact fun _ => ⟨hshown, fun start _ => by simp⟩
  case kept => exact fun _ => rfl
  case quote => exact fun _ => hquote
  case fields => rfl
  case again => exact reanchor_self hinj ⟨h.ne_nil, h.hash, h.length⟩ hquote hstate

section

variable (hquote : quoteFor hunks c.side c.range ≠ some quoted)
include hquote

theorem pointsAtItsLines_of_none (hnone : nearestShown hunks c.side quoted c.range.start = none) :
    PointsAtItsLines blockHash hunks quoted c (reanchor blockHash hunks c) := by
  have hc' : reanchor blockHash hunks c = { c with state := .outdated } := by
    rw [reanchor_of_not_quoteFor hinj h hquote, hnone]
  have hnot := nearestShown_eq_none h.ne_nil hnone
  rw [hc']
  constructor
  case outdated => exact iff_of_true rfl hnot
  case nearest => exact fun hstate => absurd rfl hstate
  case kept => exact fun hshown => absurd hshown (hnot _)
  case quote => exact fun hstate => absurd rfl hstate
  case fields => rfl
  case again =>
    have hagain : Quotes blockHash quoted { c with state := .outdated } := ⟨h.ne_nil, h.hash, h.length⟩
    rw [reanchor_of_not_quoteFor hinj hagain hquote]
    dsimp only
    rw [hnone]

theorem pointsAtItsLines_of_some {range : Range}
    (hsome : nearestShown hunks c.side quoted c.range.start = some range) :
    PointsAtItsLines blockHash hunks quoted c (reanchor blockHash hunks c) ↔
      quoteFor hunks c.side range = some quoted := by
  have hc' : reanchor blockHash hunks c = { c with range, state := .moved } := by
    rw [reanchor_of_not_quoteFor hinj h hquote, hsome]
  obtain ⟨hlength, hshown, hnearest⟩ := nearestShown_eq_some h.ne_nil hsome
  rw [hc']
  refine ⟨fun hpoints => hpoints.quote (by simp), fun hfound => ?_⟩
  constructor
  case outdated => exact iff_of_false (by simp) fun hnone => hnone _ hshown
  case nearest => exact fun _ => ⟨hshown, hnearest⟩
  case kept =>
    intro hstill
    rw [nearestShown_self h.ne_nil h.length hstill] at hsome
    exact (Option.some.inj hsome).symm
  case quote => exact fun _ => hfound
  case fields => rfl
  case again => exact reanchor_self hinj ⟨h.ne_nil, h.hash, hlength⟩ hfound (by simp)

end

end

end

/-- The comment points at its lines exactly when the nearest of their runs is not on numbers that an earlier hunk
has too: `quoteFor` reads that hunk, the search looked through all of them. -/
theorem pointsAtItsLines_iff_unshadowed (hinj : Function.Injective blockHash) {path : String}
    {list : List (LineComment η)} {i : Nat} (hc : list[i]? = some c) (hpath : c.path = path)
    (h : Quotes blockHash quoted c) :
    (∃ c', (reanchorFile blockHash path hunks list)[i]? = some c' ∧
        PointsAtItsLines blockHash hunks quoted c c') ↔
      ∀ range ∈ nearestShown hunks c.side quoted c.range.start,
        Unshadowed hunks c.side quoted range.start := by
  have hi : (reanchorFile blockHash path hunks list)[i]? = some (reanchor blockHash hunks c) := by
    rw [reanchorFile, List.getElem?_map, hc, Option.map_some, if_neg (not_not.mpr hpath)]
  rw [hi]
  simp only [Option.some.injEq, exists_eq_left']
  by_cases hquote : quoteFor hunks c.side c.range = some quoted
  · refine iff_of_true (pointsAtItsLines_of_quoteFor hinj h hquote) fun range hrange => ?_
    have hself := nearestShown_self h.ne_nil h.length (shownAt_of_quoteFor h hquote)
    obtain rfl := Option.some.inj (hself.symm.trans hrange)
    exact (quoteFor_iff_unshadowed h.ne_nil h.length).mp hquote
  · cases hfound : nearestShown hunks c.side quoted c.range.start with
    | none => exact iff_of_true (pointsAtItsLines_of_none hinj h hquote hfound) fun range hrange => by cases hrange
    | some range =>
      rw [pointsAtItsLines_of_some hinj h hquote hfound,
        quoteFor_iff_unshadowed h.ne_nil (nearestShown_eq_some h.ne_nil hfound).1]
      exact ⟨fun hfree _ hrange => Option.some.inj hrange ▸ hfree, fun hfree => hfree range rfl⟩

/-- An edit that adds one line, numbered for itself. -/
def edit (text : Text) : ParsedHunk where
  lines := [{ kind := .add, text, oldLine := none, newLine := some 1 }]
  numbered := fun side => match side with
    | .old => ⟨0, rfl⟩
    | .new => ⟨1, rfl⟩

def onLineX : LineComment (List Text) where
  id := "lc1"
  path := "a.ts"
  side := .new
  range := ⟨1, 1⟩
  hash := [['+', 'x']]
  quote := [['+', 'x']]
  note := "why?"
  createdAt := 0
  state := .pending

theorem pointsAtItsLines_iff_unshadowed_onLineX :
    ∃ c', (reanchorFile id "a.ts" [edit ['x']] [onLineX])[0]? = some c' ∧
      PointsAtItsLines id [edit ['x']] [['+', 'x']] onLineX c' := by
  have hquotes : Quotes id [['+', 'x']] onLineX := ⟨by decide, rfl, rfl⟩
  refine (pointsAtItsLines_iff_unshadowed Function.injective_id rfl rfl hquotes).mpr fun range hrange => ?_
  obtain rfl : (⟨1, 1⟩ : Range) = range := Option.some.inj hrange
  exact ⟨[], _, [], rfl, ⟨0, rfl, rfl⟩, by simp⟩

/-- Beside an edit of the same numbers the comment is sent as one on the other edit's line. -/
theorem beside_edit_reads_other :
    ¬∀ (earlier hunks : List ParsedHunk) (quoted : List Text) (c : LineComment (List Text)),
      quoteFor earlier c.side c.range = some quoted → quoted ≠ [] → c.hash = quoted →
        PointsAtItsLines id hunks quoted c (reanchor id hunks c) := by
  intro h
  have hpoints := h [edit ['x']] [edit ['a'], edit ['x']] [['+', 'x']] onLineX rfl (by decide) rfl
  exact absurd (hpoints.quote (by decide)) (by decide)

end Sightr.LineComments
