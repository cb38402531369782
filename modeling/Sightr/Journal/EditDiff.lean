import Sightr.Lib.JsText
import Sightr.Lib.Separated

/-!
# The diff of an edit

The diffs of `bridge/journal/structured.ts`: an edit's replacements, a harness's hunks or a new file as one unified
diff, and the counts that the transcript shows beside it. A line of a diff is marked by its first character; the
counter leaves out the lines that begin with `+++` or `---`, which the two header lines do, and so does an added or a
removed line whose own text begins with `++` or `--`.
-/

namespace Sightr.EditDiff

open JsText Separated

abbrev Text := List Char
abbrev Line := List Char

def MAX_DIFF_CHARS : Nat := 24000
def MAX_SIDE_CHARS : Nat := 4000

/-! ### The lines of a text -/

def foldCrlf : Text → Text
  | '\r' :: '\n' :: s => '\n' :: foldCrlf s
  | c :: s => c :: foldCrlf s
  | [] => []

def splitLines (text : Text) : List Line :=
  if text = [] then []
  else
    let lines := (foldCrlf text).splitOn '\n'
    if lines.getLast? = some [] then lines.dropLast else lines

def joinLines (lines : List Line) : Text := List.intercalate ['\n'] lines

/-! ### The diffs -/

/-- A hunk as a harness writes it; `none` stands for a line that is no string. -/
structure PatchHunk where
  oldStart : Int
  oldLines : Int
  newStart : Int
  newLines : Int
  lines : List (Option Line)
  deriving DecidableEq

def intText (n : Int) : List Char := (toString n).toList

def oldHeader (fileName : Text) : Line := "--- a/".toList ++ fileName
def newHeader (fileName : Text) : Line := "+++ b/".toList ++ fileName

def hunkHeader (h : PatchHunk) : Line :=
  "@@ -".toList ++ intText h.oldStart ++ ',' :: intText h.oldLines ++ " +".toList ++ intText h.newStart ++
    ',' :: intText h.newLines ++ " @@".toList

/-- A harness's hunks as a unified diff; `none` stands for a value that is no array, or no hunk. -/
def diffFromHunks (fileName : Text) (hunks : Option (List (Option PatchHunk))) : Option Text := do
  let hunks ← (← hunks).mapM id
  if hunks = [] then none
  else joinLines ([oldHeader fileName, newHeader fileName] ++
    hunks.flatMap fun h => hunkHeader h :: h.lines.filterMap id)

def common : List Line → List Line → Nat
  | a :: as, b :: bs => if a = b then common as bs + 1 else 0
  | _, _ => 0

/-- A replacement as one hunk: what both texts share at the start and at the end is context. -/
def hunkFromStrings (oldText newText : Text) : List Line :=
  let a := splitLines oldText
  let b := splitLines newText
  let head := common a b
  let tail := common (a.drop head).reverse (b.drop head).reverse
  "@@ @@".toList :: ((a.take head).map (' ' :: ·) ++
    ((a.take (a.length - tail)).drop head).map ('-' :: ·) ++
    ((b.take (b.length - tail)).drop head).map ('+' :: ·) ++
    (a.drop (a.length - tail)).map (' ' :: ·))

structure Replacement where
  oldText : Text
  newText : Text
  deriving DecidableEq

def diffFromReplacements (fileName : Text) (edits : List Replacement) : Option Text :=
  if edits = [] then none
  else joinLines ([oldHeader fileName, newHeader fileName] ++
    edits.flatMap fun e => hunkFromStrings e.oldText e.newText)

def newFileHeader (lines : List Line) : Line := "@@ -0,0 +1,".toList ++ natText lines.length ++ " @@".toList

def diffForNewFile (fileName content : Text) : Text :=
  let lines := splitLines content
  joinLines (["--- /dev/null".toList, newHeader fileName, newFileHeader lines] ++ lines.map ('+' :: ·))

/-! ### The counts -/

structure DiffStats where
  additions : Nat
  deletions : Nat
  deriving DecidableEq

def DiffStats.count (stats : DiffStats) (line : Line) : DiffStats :=
  if startsWith "+++".toList line || startsWith "---".toList line then stats
  else if startsWith ['+'] line then { stats with additions := stats.additions + 1 }
  else if startsWith ['-'] line then { stats with deletions := stats.deletions + 1 }
  else stats

def diffStats (diff : Text) : DiffStats := (diff.splitOn '\n').foldl DiffStats.count ⟨0, 0⟩

/-- The start of the text with at most so many code units; a pair that the cut splits is left out. -/
def takeUnits : Nat → Text → Text
  | n, c :: s => if (codeUnits [c]).length ≤ n then c :: takeUnits (n - (codeUnits [c]).length) s else []
  | _, [] => []

/-- The text, cut at a line end at or before `max` code units, and whether it was cut. -/
def capAtLine (text : Text) (max : Nat) : Text × Bool :=
  if (codeUnits text).length ≤ max then (text, false)
  else
    let cut := (((takeUnits (max + 1) text).reverse.dropWhile (· ≠ '\n')).drop 1).reverse
    (if cut = [] then takeUnits max text else cut, true)

structure DiffDetail where
  fileName : Text
  diff : Option Text := none
  stats : Option DiffStats := none
  oldStr : Option Text := none
  newStr : Option Text := none
  truncated : Bool := false
  deriving DecidableEq

/-- A file change's detail: the diff, counted whole and then capped, or the two sides. -/
def diffDetail (fileName : Text) (diff oldStr newStr : Option Text) : DiffDetail :=
  match diff.filter (· ≠ []) with
  | some diff =>
    { fileName, diff := some (capAtLine diff MAX_DIFF_CHARS).1, stats := some (diffStats diff)
      truncated := (capAtLine diff MAX_DIFF_CHARS).2 }
  | none =>
    let side (s : Option Text) := (s.filter (· ≠ [])).map (capAtLine · MAX_SIDE_CHARS)
    { fileName, oldStr := (side oldStr).map Prod.fst, newStr := (side newStr).map Prod.fst
      truncated := (side oldStr).any Prod.snd || (side newStr).any Prod.snd }

/-! ### What a hunk shows -/

/-- The text of a line that is context or has the mark. -/
def shown (mark : Char) : Line → Option Line
  | c :: text => if c = ' ' ∨ c = mark then some text else none
  | [] => none

def oldSide (hunk : List Line) : List Line := hunk.filterMap (shown '-')

def newSide (hunk : List Line) : List Line := hunk.filterMap (shown '+')

variable {mark c : Char}

theorem filterMap_shown_self (h : c = ' ' ∨ c = mark) (lines : List Line) :
    (lines.map (c :: ·)).filterMap (shown mark) = lines := by
  rw [List.filterMap_map]
  have hshown : shown mark ∘ (c :: ·) = some := funext fun text => if_pos h
  rw [hshown, List.filterMap_some]

theorem filterMap_shown_other (h : ¬(c = ' ' ∨ c = mark)) (lines : List Line) :
    (lines.map (c :: ·)).filterMap (shown mark) = [] := by
  rw [List.filterMap_map]
  have hshown : shown mark ∘ (c :: ·) = fun _ => none := funext fun text => if_neg h
  rw [hshown, List.filterMap_none]

variable {a b : List Line}

theorem common_le (a b : List Line) : common a b ≤ a.length ∧ common a b ≤ b.length := by
  fun_induction common a b with
  | case1 x as bs ih => exact ⟨Nat.succ_le_succ ih.1, Nat.succ_le_succ ih.2⟩
  | case2 => exact ⟨Nat.zero_le _, Nat.zero_le _⟩
  | case3 => exact ⟨Nat.zero_le _, Nat.zero_le _⟩

theorem take_common (a b : List Line) : a.take (common a b) = b.take (common a b) := by
  fun_induction common a b with
  | case1 x as bs ih => rw [List.take_succ_cons, List.take_succ_cons, ih]
  | case2 => rfl
  | case3 => rfl

variable {head : Nat}

theorem drop_common (hleft : head ≤ a.length) (hright : head ≤ b.length) :
    let tail := common (a.drop head).reverse (b.drop head).reverse
    head + tail ≤ a.length ∧ head + tail ≤ b.length ∧ a.drop (a.length - tail) = b.drop (b.length - tail) := by
  intro tail
  obtain ⟨ha, hb⟩ := common_le (a.drop head).reverse (b.drop head).reverse
  have hshare := take_common (a.drop head).reverse (b.drop head).reverse
  change tail ≤ _ at ha
  change tail ≤ _ at hb
  change List.take tail _ = List.take tail _ at hshare
  rw [List.length_reverse, List.length_drop] at ha hb
  refine ⟨by omega, by omega, ?_⟩
  rw [List.take_reverse, List.take_reverse, List.reverse_inj, List.drop_drop, List.drop_drop, List.length_drop,
    List.length_drop] at hshare
  have hsame (l : Nat) (h : head + tail ≤ l) : head + (l - head - tail) = l - tail := by omega
  rwa [hsame a.length (by omega), hsame b.length (by omega)] at hshare

theorem parts_eq {tail : Nat} (h : head + tail ≤ a.length) :
    a.take head ++ (a.take (a.length - tail)).drop head ++ a.drop (a.length - tail) = a := by
  have hfront : a.take head = (a.take (a.length - tail)).take head := by
    rw [List.take_take, Nat.min_eq_left (by omega)]
  rw [hfront, List.take_append_drop, List.take_append_drop]

theorem oldSide_hunkFromStrings (oldText newText : Text) :
    oldSide (hunkFromStrings oldText newText) = splitLines oldText := by
  obtain ⟨hleft, hright⟩ := common_le (splitLines oldText) (splitLines newText)
  obtain ⟨ha, -, -⟩ := drop_common hleft hright
  have hheader : shown '-' "@@ @@".toList = none := by decide
  simp only [oldSide, hunkFromStrings, List.filterMap_cons, hheader, List.filterMap_append,
    filterMap_shown_self (Or.inl rfl), filterMap_shown_self (Or.inr rfl),
    filterMap_shown_other (show ¬('+' = ' ' ∨ '+' = '-') by decide), List.append_nil]
  exact parts_eq ha

theorem newSide_hunkFromStrings (oldText newText : Text) :
    newSide (hunkFromStrings oldText newText) = splitLines newText := by
  obtain ⟨hleft, hright⟩ := common_le (splitLines oldText) (splitLines newText)
  obtain ⟨-, hb, hend⟩ := drop_common hleft hright
  have hheader : shown '+' "@@ @@".toList = none := by decide
  simp only [newSide, hunkFromStrings, List.filterMap_cons, hheader, List.filterMap_append,
    filterMap_shown_self (Or.inl rfl), filterMap_shown_self (Or.inr rfl),
    filterMap_shown_other (show ¬('-' = ' ' ∨ '-' = '+') by decide), List.append_nil]
  rw [take_common, hend]
  exact parts_eq hb

/-! ### The lines of a diff -/

abbrev OneLine (line : Line) : Prop := '\n' ∉ line

variable {line : Line}

theorem oneLine_of_mem_splitLines {text : Text} (h : line ∈ splitLines text) : OneLine line := by
  simp only [splitLines] at h
  split_ifs at h with hempty hlast
  · cases h
  · exact not_mem_of_mem_splitOn (List.dropLast_subset _ h)
  · exact not_mem_of_mem_splitOn h

theorem oneLine_cons (hc : c ≠ '\n') (h : OneLine line) : OneLine (c :: line) :=
  List.not_mem_cons_of_ne_of_not_mem hc.symm h

theorem oneLine_of_mem_map {text : Text} {l : List Line} (hl : l <:+: splitLines text) (hc : c ≠ '\n')
    (h : line ∈ l.map (c :: ·)) : OneLine line := by
  obtain ⟨rest, hrest, rfl⟩ := List.mem_map.mp h
  exact oneLine_cons hc (oneLine_of_mem_splitLines (hl.subset hrest))

theorem oneLine_of_mem_hunkFromStrings {oldText newText : Text} (h : line ∈ hunkFromStrings oldText newText) :
    OneLine line := by
  simp only [hunkFromStrings, List.mem_cons, List.mem_append] at h
  obtain rfl | ((h | h) | h) | h := h
  · decide
  · exact oneLine_of_mem_map (List.take_prefix ..).isInfix (by decide) h
  · exact oneLine_of_mem_map ((List.drop_suffix ..).isInfix.trans (List.take_prefix ..).isInfix) (by decide) h
  · exact oneLine_of_mem_map ((List.drop_suffix ..).isInfix.trans (List.take_prefix ..).isInfix) (by decide) h
  · exact oneLine_of_mem_map (List.drop_suffix ..).isInfix (by decide) h

/-! ### The counts -/

section

variable (mark : Char)

variable (lines : List Line)

def marked : Nat := lines.countP (startsWith [mark])

/-- The lines with the mark whose text begins with it twice. -/
def tripled : Nat := lines.countP (startsWith [mark, mark, mark])

/-- The further lines of a file's name that the counter takes for lines of the diff. -/
def spurious (fileName : Text) : Nat :=
  ((fileName.splitOn '\n').drop 1).countP fun line =>
    startsWith [mark] line && !startsWith [mark, mark, mark] line

def counted : Nat :=
  lines.countP fun line => startsWith [mark] line && !startsWith [mark, mark, mark] line

theorem counted_append (lines more : List Line) :
    counted mark (lines ++ more) = counted mark lines + counted mark more := List.countP_append

theorem counted_add_tripled :
    counted mark lines + tripled mark lines = marked mark lines := by
  induction lines with
  | nil => rfl
  | cons line lines ih =>
    have himp : startsWith [mark, mark, mark] line = true → startsWith [mark] line = true := by
      rw [startsWith, startsWith, List.isPrefixOf_iff_prefix, List.isPrefixOf_iff_prefix]
      exact (List.prefix_append [mark] [mark, mark]).trans
    simp only [counted, tripled, marked, List.countP_cons] at ih ⊢
    cases hone : startsWith [mark] line with
    | false =>
      have hthree : startsWith [mark, mark, mark] line = false := by
        by_contra hno
        rw [himp (by simpa using hno)] at hone
        cases hone
      rw [hthree]
      simpa using ih
    | true =>
      cases hthree : startsWith [mark, mark, mark] line with
      | false =>
        simp only [Bool.not_false, Bool.and_self, if_true, Bool.false_eq_true, if_false]
        omega
      | true =>
        simp only [Bool.not_true, Bool.and_false, if_true, Bool.false_eq_true, if_false]
        omega

end

theorem startsWith_cons (mark c : Char) (marks text : List Char) :
    startsWith (mark :: marks) (c :: text) = (mark == c && startsWith marks text) := rfl

theorem startsWith_nil (text : List Char) : startsWith [] text = true := by simp [startsWith]

theorem count_eq (stats : DiffStats) (line : Line) :
    stats.count line = ⟨stats.additions + counted '+' [line], stats.deletions + counted '-' [line]⟩ := by
  cases line with
  | nil => rfl
  | cons c text =>
    have hplus : "+++".toList = ['+', '+', '+'] := rfl
    have hminus : "---".toList = ['-', '-', '-'] := rfl
    simp only [DiffStats.count, counted, List.countP_singleton, hplus, hminus, startsWith_cons, startsWith_nil]
    by_cases hadded : c = '+'
    · subst hadded
      cases h : startsWith ['+', '+'] text with
      | false => simp
      | true => simp
    · by_cases hremoved : c = '-'
      · subst hremoved
        cases h : startsWith ['-', '-'] text with
        | false => simp
        | true => simp
      · simp [Ne.symm hadded, Ne.symm hremoved]

theorem diffStats_eq (diff : Text) :
    diffStats diff = ⟨counted '+' (diff.splitOn '\n'), counted '-' (diff.splitOn '\n')⟩ := by
  have hfold (lines : List Line) (stats : DiffStats) : lines.foldl DiffStats.count stats =
      ⟨stats.additions + counted '+' lines, stats.deletions + counted '-' lines⟩ := by
    induction lines generalizing stats with
    | nil => rfl
    | cons line lines ih =>
      have hcons (mark : Char) : counted mark (line :: lines) = counted mark [line] + counted mark lines :=
        counted_append mark [line] lines
      rw [List.foldl_cons, ih, count_eq, hcons, hcons, Nat.add_assoc, Nat.add_assoc]
  rw [diffStats, hfold, Nat.zero_add, Nat.zero_add]

/-! ### The three diffs -/

inductive Built
  | replacements (fileName : Text) (edits : List Replacement)
  | hunks (fileName : Text) (raw : Option (List (Option PatchHunk)))
  | newFile (fileName content : Text)

namespace Built

variable (d : Built)

def fileName : Text :=
  match d with
  | .replacements fileName _ => fileName
  | .hunks fileName _ => fileName
  | .newFile fileName _ => fileName

def text : Option Text :=
  match d with
  | .replacements fileName edits => diffFromReplacements fileName edits
  | .hunks fileName raw => diffFromHunks fileName raw
  | .newFile fileName content => some (diffForNewFile fileName content)

def naming : Nat :=
  match d with
  | .newFile .. => 1
  | _ => 2

/-- The lines of its hunks, as they stand in the diff. -/
def hunkLines : List Line :=
  match d with
  | .replacements _ edits => edits.flatMap fun e => hunkFromStrings e.oldText e.newText
  | .hunks _ raw => ((raw.bind (·.mapM id)).getD []).flatMap fun h =>
      hunkHeader h :: (h.lines.filterMap id).flatMap (·.splitOn '\n')
  | .newFile _ content => newFileHeader (splitLines content) :: (splitLines content).map ('+' :: ·)

end Built

variable {front : Line}

theorem counted_naming (hfront : OneLine front)
    (hnone : ∀ text, (startsWith [mark] (front ++ text) && !startsWith [mark, mark, mark] (front ++ text)) = false)
    (fileName : Text) : counted mark ((front ++ fileName).splitOn '\n') = spurious mark fileName := by
  rw [splitOn_append_of_not_mem hfront, spurious]
  cases fileName.splitOn '\n' with
  | nil => rfl
  | cons piece pieces =>
    rw [List.modifyHead_cons, List.drop_one, List.tail_cons, counted, List.countP_cons, hnone]
    rfl

theorem counted_oldHeader (h : mark = '+' ∨ mark = '-') (fileName : Text) :
    counted mark ((oldHeader fileName).splitOn '\n') = spurious mark fileName := by
  refine counted_naming (by decide) (fun text => ?_) fileName
  obtain rfl | rfl := h
  · rfl
  · rfl

theorem counted_newHeader (h : mark = '+' ∨ mark = '-') (fileName : Text) :
    counted mark ((newHeader fileName).splitOn '\n') = spurious mark fileName := by
  refine counted_naming (by decide) (fun text => ?_) fileName
  obtain rfl | rfl := h
  · rfl
  · rfl

theorem flatMap_splitOn_of_oneLine {lines : List Line} (h : ∀ line ∈ lines, OneLine line) :
    lines.flatMap (·.splitOn '\n') = lines := by
  induction lines with
  | nil => rfl
  | cons line lines ih =>
    obtain ⟨hline, hrest⟩ := List.forall_mem_cons.mp h
    rw [List.flatMap_cons, List.splitOn_eq_singleton hline, ih hrest, List.singleton_append]

theorem oneLine_intText (n : Int) : OneLine (intText n) := by
  intro hmem
  obtain hdigit | hminus := isDigit_of_mem_toString hmem
  · exact absurd hdigit (by decide)
  · exact absurd hminus (by decide)

theorem oneLine_append {back : Line} (hfront : OneLine front) (hback : OneLine back) : OneLine (front ++ back) :=
  fun hmem => (List.mem_append.mp hmem).elim hfront hback

theorem oneLine_hunkHeader (h : PatchHunk) : OneLine (hunkHeader h) := by
  have hcomma (n : Int) : OneLine (',' :: intText n) := oneLine_cons (by decide) (oneLine_intText n)
  have hold : OneLine ("@@ -".toList ++ intText h.oldStart ++ ',' :: intText h.oldLines) :=
    oneLine_append (oneLine_append (by decide) (oneLine_intText _)) (hcomma _)
  have hmiddle : OneLine " +".toList := by decide
  have hend : OneLine " @@".toList := by decide
  unfold hunkHeader
  exact oneLine_append
    (oneLine_append (oneLine_append (oneLine_append hold hmiddle) (oneLine_intText _)) (hcomma _)) hend

theorem oneLine_newFileHeader (lines : List Line) : OneLine (newFileHeader lines) := by
  have hnumber : OneLine (natText lines.length) := fun hmem => absurd (isDigit_of_mem_natText hmem) (by decide)
  exact oneLine_append (oneLine_append (by decide) hnumber) (by decide)

theorem splitOn_replacements (fileName : Text) (edits : List Replacement) :
    (joinLines ([oldHeader fileName, newHeader fileName] ++
        edits.flatMap fun e => hunkFromStrings e.oldText e.newText)).splitOn '\n' =
      (oldHeader fileName).splitOn '\n' ++ (newHeader fileName).splitOn '\n' ++
        edits.flatMap fun e => hunkFromStrings e.oldText e.newText := by
  have hlines : ∀ line ∈ edits.flatMap fun e => hunkFromStrings e.oldText e.newText, OneLine line := by
    intro line hline
    obtain ⟨e, -, hline⟩ := List.mem_flatMap.mp hline
    exact oneLine_of_mem_hunkFromStrings hline
  rw [joinLines, splitOn_intercalate (by simp), List.flatMap_append, flatMap_splitOn_of_oneLine hlines]
  simp only [List.flatMap_cons, List.flatMap_nil, List.append_nil]

variable {d : Built} {diff : Text}

theorem Built.counted_text (h : mark = '+' ∨ mark = '-') (hdiff : d.text = some diff) :
    counted mark (diff.splitOn '\n') = d.naming * spurious mark d.fileName + counted mark d.hunkLines := by
  cases d with
  | replacements fileName edits =>
    simp only [Built.text, diffFromReplacements] at hdiff
    split_ifs at hdiff
    cases hdiff
    rw [splitOn_replacements, counted_append, counted_append, counted_oldHeader h, counted_newHeader h]
    simp only [Built.naming, Built.fileName, Built.hunkLines]
    omega
  | hunks fileName raw =>
    obtain ⟨hunks, rfl, hdiff⟩ := Option.bind_eq_some_iff.mp hdiff
    obtain ⟨all, hall, hdiff⟩ := Option.bind_eq_some_iff.mp hdiff
    split_ifs at hdiff
    cases hdiff
    have hlines : (all.flatMap fun h => hunkHeader h :: h.lines.filterMap id).flatMap (·.splitOn '\n') =
        Built.hunkLines (.hunks fileName (some hunks)) := by
      rw [Built.hunkLines, Option.bind_some, hall, Option.getD_some, List.flatMap_assoc]
      refine congrArg (List.flatMap · all) (funext fun h => ?_)
      rw [List.flatMap_cons, List.splitOn_eq_singleton (oneLine_hunkHeader h), List.singleton_append]
    rw [joinLines, splitOn_intercalate (by simp), List.flatMap_append, hlines, counted_append]
    simp only [List.flatMap_cons, List.flatMap_nil, List.append_nil, counted_append, counted_oldHeader h,
      counted_newHeader h, Built.naming, Built.fileName]
    omega
  | newFile fileName content =>
    cases hdiff
    have hlines : ∀ line ∈ newFileHeader (splitLines content) :: (splitLines content).map ('+' :: ·), OneLine line :=
      List.forall_mem_cons.mpr ⟨oneLine_newFileHeader _, fun line hline =>
        oneLine_of_mem_map (List.infix_refl _) (by decide) hline⟩
    have hnull : counted mark ("--- /dev/null".toList.splitOn '\n') = 0 := by
      obtain rfl | rfl := h
      · decide
      · decide
    rw [diffForNewFile, joinLines, splitOn_intercalate (by simp), List.cons_append, List.cons_append,
      List.cons_append, List.nil_append, List.flatMap_cons, List.flatMap_cons, flatMap_splitOn_of_oneLine hlines,
      counted_append,
      counted_append, hnull, counted_newHeader h, Nat.zero_add]
    simp only [Built.naming, Built.fileName, Built.hunkLines, Nat.one_mul]

theorem joinLines_ne_nil (h : line ≠ []) (lines : List Line) : joinLines (line :: lines) ≠ [] := by
  cases lines with
  | nil => simpa [joinLines] using h
  | cons next lines => simp [joinLines]

theorem Built.ne_nil_of_text (h : d.text = some diff) : diff ≠ [] := by
  have hold (fileName : Text) : oldHeader fileName ≠ [] := List.append_ne_nil_of_left_ne_nil (by decide) _
  cases d with
  | replacements fileName edits =>
    simp only [Built.text, diffFromReplacements] at h
    split_ifs at h
    exact Option.some.inj h ▸ joinLines_ne_nil (hold fileName) _
  | hunks fileName raw =>
    obtain ⟨hunks, rfl, h⟩ := Option.bind_eq_some_iff.mp h
    obtain ⟨all, hall, h⟩ := Option.bind_eq_some_iff.mp h
    split_ifs at h
    exact Option.some.inj h ▸ joinLines_ne_nil (hold fileName) _
  | newFile fileName content => exact Option.some.inj h ▸ joinLines_ne_nil (by decide) _

/-- Each hunk of replacements shows the old and the new text, line by line, and the hunks stand in the diff behind the
header as they are. The counts of a built diff are those of its hunks' lines exactly where the lines that the counter
leaves out, an added or a removed line whose text begins with `++` or `--`, are as many as those it finds in the
file's name. -/
theorem counts_exact_iff (d : Built) :
    (∀ oldText newText, oldSide (hunkFromStrings oldText newText) = splitLines oldText ∧
      newSide (hunkFromStrings oldText newText) = splitLines newText) ∧
    (∀ fileName edits diff, diffFromReplacements fileName edits = some diff →
      diff.splitOn '\n' = (oldHeader fileName).splitOn '\n' ++ (newHeader fileName).splitOn '\n' ++
        edits.flatMap fun e => hunkFromStrings e.oldText e.newText) ∧
    ∀ diff oldStr newStr, d.text = some diff → ((diffDetail d.fileName (some diff) oldStr newStr).stats =
          some ⟨marked '+' d.hunkLines, marked '-' d.hunkLines⟩ ↔
        tripled '+' d.hunkLines = d.naming * spurious '+' d.fileName ∧
          tripled '-' d.hunkLines = d.naming * spurious '-' d.fileName) := by
  refine ⟨fun oldText newText => ⟨oldSide_hunkFromStrings .., newSide_hunkFromStrings ..⟩, ?_, ?_⟩
  · intro fileName edits diff hdiff
    rw [diffFromReplacements] at hdiff
    split_ifs at hdiff
    cases hdiff
    exact splitOn_replacements fileName edits
  · intro diff oldStr newStr hdiff
    have hplus := Built.counted_text (Or.inl rfl) hdiff
    have hminus := Built.counted_text (Or.inr rfl) hdiff
    have hadded := counted_add_tripled '+' d.hunkLines
    have hremoved := counted_add_tripled '-' d.hunkLines
    have hstats : (diffDetail d.fileName (some diff) oldStr newStr).stats = some (diffStats diff) := by
      simp only [diffDetail, Option.filter_some, Built.ne_nil_of_text hdiff, ne_eq, not_false_eq_true, decide_true,
        if_true]
    rw [hstats, diffStats_eq, hplus, hminus, Option.some_inj, DiffStats.mk.injEq]
    omega

/-- One line of three is replaced. -/
theorem counts_exact_iff_one : let d := Built.replacements "a.ts".toList [⟨"a\nb\nc".toList, "a\nB\nc".toList⟩]
    (diffDetail d.fileName (some (d.text.getD [])) none none).stats =
      some ⟨marked '+' d.hunkLines, marked '-' d.hunkLines⟩ := by
  intro d
  exact ((counts_exact_iff d).2.2 (d.text.getD []) none none rfl).mpr (by decide +kernel)

/-- A removed line that begins with `--` is not counted. -/
theorem removed_comment_uncounted :
    let d := Built.replacements "a.sql".toList [⟨"-- drop\nselect 1".toList, "select 1".toList⟩]
    (diffDetail d.fileName d.text none none).stats = some ⟨0, 0⟩ ∧ marked '-' d.hunkLines = 1 := by
  decide +kernel

end Sightr.EditDiff
