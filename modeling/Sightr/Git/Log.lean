import Sightr.Git.Output

/-!
# The log that git prints

`parseLogZ` of `bridge/workdir-git.ts` against `git log -z --numstat` in the format that the code asks for: a mark in
front of each commit, its fields with a separator between them, and the rows of its files. An author, a subject and a
path may hold the mark and the separator.
-/

namespace Sightr.Git

open JsText Separated Files

/-! ### The parser -/

structure RawCommit where
  sha : Text
  short : Text
  time : Nat
  parents : Nat
  author : Text
  subject : Text
  stats : List FileStat
  deriving DecidableEq

/-- `Number(text) || 0`, for the decimal number that git prints. -/
def numberOr0 (s : Text) : Nat :=
  match readNumber s with
  | some (n, []) => n
  | _ => 0

/-- One record of the log: what its format asks for, and the rows behind it. -/
def readCommit (chunk : Text) : Option RawCommit :=
  let parts := chunk.splitOn '\x00'
  let fields := (parts.headD []).splitOn '\x1f'
  let sha := fields.getD 0 []
  let parents := trim (fields.getD 3 [])
  if isFullSha sha then
    some {
      sha, short := fields.getD 1 [], time := numberOr0 (fields.getD 2 [])
      parents := if parents = [] then 0 else (parents.splitOn ' ').length
      author := fields.getD 4 [], subject := List.intercalate ['\x1f'] (fields.drop 5)
      stats := parts.tail.filterMap parseNumstatRecord }
  else none

def parseLogZ (stdout : Text) : List RawCommit := ((stdout.splitOn '\x1e').drop 1).filterMap readCommit

/-! ### What git has to say -/

abbrev Sha := { s : Text // isFullSha s = true }

abbrev Field := { s : Text // '\x00' ∉ s ∧ '\n' ∉ s }

/-- A row of a log's `--numstat`, which follows no renames. -/
structure LogRow where
  counts : Option (Nat × Nat)
  path : Path

namespace LogRow

variable (r : LogRow)

def text : Text := NumstatEntry.countsText ⟨r.counts, r.path, none⟩ ++ r.path.1

def stat : FileStat :=
  match r.counts with
  | some (added, removed) => { path := r.path.1, added, removed, binary := false }
  | none => { path := r.path.1, added := 0, removed := 0, binary := true }

end LogRow

structure LogEntry where
  sha : Sha
  short : { s : Text // s.all isHex = true }
  time : Nat
  parents : List Sha
  author : Field
  subject : Field
  rows : List LogRow
  gap : Nat

namespace LogEntry

variable (c : LogEntry)

def parentsText : Text := List.intercalate [' '] (c.parents.map (·.1))

def head : Text := terminated '\x1f' [c.sha.1, c.short.1, natText c.time, c.parentsText, c.author.1] ++ c.subject.1

def rowsText : Text := List.replicate c.gap '\n' ++ terminated '\x00' (c.rows.map LogRow.text)

def text : Text := c.head ++ '\x00' :: c.rowsText

def commit : RawCommit where
  sha := c.sha.1
  short := c.short.1
  time := c.time
  parents := c.parents.length
  author := c.author.1
  subject := c.subject.1
  stats := c.rows.map LogRow.stat

end LogEntry

def logText (commits : List LogEntry) : Text := commits.flatMap fun c => '\x1e' :: c.text

/-! ### The first mark -/

theorem first_mark {mark : Char} {front back piece more : Text} (h : front ++ back = piece ++ mark :: more)
    (hpiece : mark ∉ piece) : (∃ rest, front = piece ++ mark :: rest) ∨
      (mark ∉ front ∧ ∃ start, piece = front ++ start ∧ back = start ++ mark :: more) := by
  obtain ⟨start, rfl, hback⟩ | ⟨rest, rfl, hrest⟩ := List.append_eq_append_iff.mp h
  · exact .inr ⟨fun hno => hpiece (List.mem_append_left _ hno), start, rfl, hback⟩
  · cases rest with
    | nil =>
      rw [List.append_nil]
      exact .inr ⟨hpiece, [], (List.append_nil _).symm, hrest.symm⟩
    | cons a rest =>
      obtain ⟨rfl, -⟩ := List.cons.inj hrest
      exact .inl ⟨rest, rfl⟩

/-! ### Commits -/

theorem parseNumstatRecord_eq (record : Text) :
    parseNumstatRecord record = (readCounts (record.dropWhile (· = '\n'))).bind fun counts =>
      if counts.2.2.isEmpty then none
      else match counts.1, counts.2.1 with
        | some added, some removed => some { path := counts.2.2, added, removed, binary := false }
        | _, _ => some { path := counts.2.2, added := 0, removed := 0, binary := true } := by
  simp only [parseNumstatRecord, readCounts, Option.bind_eq_bind, Option.bind_assoc, Option.pure_def,
    Option.bind_some] <;> rfl

theorem parseNumstatRecord_gap (n : Nat) (record : Text) :
    parseNumstatRecord (List.replicate n '\n' ++ record) = parseNumstatRecord record := by
  rw [parseNumstatRecord, parseNumstatRecord, List.dropWhile_append_of_pos fun c hc => by
    rw [List.eq_of_mem_replicate hc]; rfl]

namespace LogRow

variable (r : LogRow)

theorem parseNumstatRecord_countsText (path : Text) :
    parseNumstatRecord (NumstatEntry.countsText ⟨r.counts, r.path, none⟩ ++ path) =
      if path = [] then none else some { r.stat with path } := by
  have hread := readCounts_countsText ⟨r.counts, r.path, none⟩ path
  have hstart : (NumstatEntry.countsText ⟨r.counts, r.path, none⟩ ++ path).dropWhile (· = '\n') =
      NumstatEntry.countsText ⟨r.counts, r.path, none⟩ ++ path := by
    rw [NumstatEntry.countsText, NumstatEntry.countTexts]
    cases r.counts with
    | none => rfl
    | some counts =>
      cases htext : natText counts.1 with
      | nil => exact absurd htext (natText_ne_nil _)
      | cons c text =>
        have hdigit : c.isDigit = true := isDigit_of_mem_natText (htext ▸ List.mem_cons_self ..)
        have hline : c ≠ '\n' := fun hno => absurd (hno ▸ hdigit) (by decide)
        simp only [htext, List.cons_append]
        exact List.dropWhile_cons_of_neg (by simpa using hline)
  rw [parseNumstatRecord_eq, hstart, hread, Option.bind_some, stat]
  cases path with
  | nil => rfl
  | cons c path => cases r.counts <;> rfl

theorem parseNumstatRecord_text : parseNumstatRecord r.text = some r.stat := by
  rw [text, parseNumstatRecord_countsText, if_neg r.path.2.1]
  cases hcounts : r.counts <;> simp [stat, hcounts]

theorem nul_not_mem_text : '\x00' ∉ r.text :=
  fun hmem => (List.mem_append.mp hmem).elim (nul_not_mem_countsText _) r.path.2.2

end LogRow

theorem filterMap_rows (rows : List LogRow) (gap : Nat) {last : Text} (h : '\x00' ∉ last) :
    ((List.replicate gap '\n' ++ (terminated '\x00' (rows.map LogRow.text) ++ last)).splitOn '\x00').filterMap
        parseNumstatRecord = rows.map LogRow.stat ++ (parseNumstatRecord last).toList := by
  have hgap : '\x00' ∉ List.replicate gap '\n' := fun hmem => absurd (List.eq_of_mem_replicate hmem) (by decide)
  have hnul : ∀ text ∈ rows.map LogRow.text, '\x00' ∉ text := by
    intro text htext
    obtain ⟨row, -, rfl⟩ := List.mem_map.mp htext
    exact row.nul_not_mem_text
  have hhead (pieces : List Text) : (pieces.modifyHead (List.replicate gap '\n' ++ ·)).filterMap parseNumstatRecord =
      pieces.filterMap parseNumstatRecord := by
    cases pieces with
    | nil => rfl
    | cons piece pieces =>
      rw [List.modifyHead_cons, List.filterMap_cons, List.filterMap_cons, parseNumstatRecord_gap]
  have hrows : (rows.map LogRow.text).filterMap parseNumstatRecord = rows.map LogRow.stat := by
    rw [List.filterMap_map, ← List.filterMap_eq_map]
    exact congrArg (List.filterMap · rows) (funext LogRow.parseNumstatRecord_text)
  rw [splitOn_append_of_not_mem hgap, hhead, splitOn_terminated hnul, List.splitOn_eq_singleton h,
    List.filterMap_append, hrows]
  cases hlast : parseNumstatRecord last with
  | none => simp [hlast]
  | some stat => simp [hlast]

namespace LogEntry

variable (c : LogEntry)

def front : Text := terminated '\x1f' [c.sha.1, c.short.1, natText c.time, c.parentsText]

theorem text_eq : c.text = c.front ++ (c.author.1 ++ '\x1f' :: c.subject.1) ++ '\x00' :: c.rowsText := by
  simp [text, head, front, terminated]

theorem sha_spec (sha : Sha) : sha.1.all isHex = true := (Bool.and_eq_true_iff.mp sha.2).2

theorem not_mem_fields {mark : Char} (hhex : isHex mark = false) (hdigit : mark.isDigit = false)
    (hblank : mark ≠ ' ') : ∀ field ∈ [c.sha.1, c.short.1, natText c.time, c.parentsText], mark ∉ field := by
  have hparents : mark ∉ c.parentsText := fun hmem => by
    obtain ⟨sha, hsha, hmem⟩ | hno := mem_intercalate hmem
    · obtain ⟨sha, -, rfl⟩ := List.mem_map.mp hsha
      exact not_mem_of_all (sha_spec sha) hhex hmem
    · exact hblank hno
  simp only [List.forall_mem_cons]
  exact ⟨not_mem_of_all (sha_spec c.sha) hhex, not_mem_of_all c.short.2 hhex, not_mem_natText hdigit, hparents,
    fun _ hno => absurd hno List.not_mem_nil⟩

theorem not_mem_front {mark : Char} (hhex : isHex mark = false) (hdigit : mark.isDigit = false) (hblank : mark ≠ ' ')
    (hsep : mark ≠ '\x1f') : mark ∉ c.front := by
  intro hmem
  obtain ⟨field, hfield, hmem⟩ := List.mem_flatMap.mp hmem
  obtain hmem | hmem := List.mem_append.mp hmem
  · exact c.not_mem_fields hhex hdigit hblank field hfield hmem
  · exact hsep (List.mem_singleton.mp hmem)

theorem not_isSpace_of_isHex {c : Char} (h : isHex c = true) : isSpace c = false := by
  have hrange : (48 ≤ c.toNat ∧ c.toNat ≤ 57) ∨ (97 ≤ c.toNat ∧ c.toNat ≤ 102) := by
    simp only [isHex, Char.isDigit, Bool.or_eq_true, Bool.and_eq_true, decide_eq_true_eq, Char.le_def,
      UInt32.le_iff_toNat_le] at h
    exact h
  simp only [isSpace, Bool.or_eq_false_iff, Bool.and_eq_false_iff, decide_eq_false_iff_not]
  omega

theorem trim_eq_self {s : Text} (hfirst : ∀ c ∈ s.head?, isSpace c = false)
    (hlast : ∀ c ∈ s.getLast?, isSpace c = false) : trim s = s := by
  have hdrop (s : Text) (h : ∀ c ∈ s.head?, isSpace c = false) : s.dropWhile isSpace = s := by
    cases s with
    | nil => rfl
    | cons c s => rw [List.dropWhile_cons, h c rfl]; rfl
  rw [trim, trimStart, hdrop s hfirst, trimEnd, hdrop s.reverse (by rwa [List.head?_reverse]), List.reverse_reverse]

theorem exists_mem_sha (sha : Sha) : ∃ c s, sha.1 = c :: s ∧ ∀ c ∈ sha.1, isSpace c = false := by
  have hfull := Bool.and_eq_true_iff.mp sha.2
  cases hsha : sha.1 with
  | nil =>
    rw [hsha] at hfull
    exact absurd hfull.1 (by decide)
  | cons c s =>
    exact ⟨c, s, rfl, fun d hd => not_isSpace_of_isHex (List.all_eq_true.mp hfull.2 d (hsha ▸ hd))⟩

theorem trim_parentsText : trim c.parentsText = c.parentsText := by
  refine trim_eq_self (fun d hd => ?_) fun d hd => ?_
  · cases hparents : c.parents with
    | nil =>
      rw [parentsText, hparents] at hd
      cases hd
    | cons sha parents =>
      obtain ⟨e, s, hsha, hbare⟩ := exists_mem_sha sha
      have hhead : c.parentsText.head? = some e := by
        rw [parentsText, hparents, List.map_cons, hsha]
        cases parents with
        | nil => simp
        | cons next parents => simp [List.intercalate_cons_cons]
      rw [hhead] at hd
      obtain rfl := Option.some.inj hd
      exact hbare e (hsha ▸ List.mem_cons_self ..)
  · cases hparents : c.parents.getLast? with
    | none =>
      rw [parentsText, List.getLast?_eq_none_iff.mp hparents] at hd
      cases hd
    | some sha =>
      obtain ⟨e, s, hsha, hbare⟩ := exists_mem_sha sha
      have hsuffix := intercalate_drop_suffix (c.parents.map (·.1)) (x := ' ') (c.parents.length - 1)
      have hone : (c.parents.map (·.1)).drop (c.parents.length - 1) = [sha.1] := by
        obtain ⟨front, hfront⟩ := List.getLast?_eq_some_iff.mp hparents
        rw [hfront]
        simp
      rw [hone, List.intercalate_singleton] at hsuffix
      obtain ⟨front, hfront⟩ := hsuffix
      have hne : sha.1 ≠ [] := by rw [hsha]; exact List.cons_ne_nil _ _
      change front ++ sha.1 = c.parentsText at hfront
      rw [← hfront, List.getLast?_append_of_ne_nil _ hne] at hd
      exact hbare d (List.mem_of_getLast? hd)

theorem parents_spec : (if trim c.parentsText = [] then 0 else ((trim c.parentsText).splitOn ' ').length) =
    c.parents.length := by
  have hblank : ∀ sha ∈ c.parents.map (·.1), ' ' ∉ sha := by
    intro sha hsha
    obtain ⟨sha, -, rfl⟩ := List.mem_map.mp hsha
    exact not_mem_of_all (sha_spec sha) rfl
  rw [trim_parentsText]
  cases hparents : c.parents with
  | nil =>
    rw [parentsText, hparents]
    rfl
  | cons sha parents =>
    have hne : c.parents.map (·.1) ≠ [] := by simp [hparents]
    obtain ⟨e, s, hsha, -⟩ := exists_mem_sha sha
    have htext : c.parentsText ≠ [] := by
      intro hno
      have hmem : e ∈ c.parentsText := by
        rw [parentsText, hparents, List.map_cons, hsha]
        cases parents with
        | nil => simp
        | cons next parents => simp [List.intercalate_cons_cons]
      rw [hno] at hmem
      cases hmem
    rw [if_neg htext, parentsText, List.splitOn_intercalate ' ' hblank hne, List.length_map, hparents]

theorem readCommit_front {fields : Text} (hfields : '\x00' ∉ fields) {tail : Text}
    (htail : tail = [] ∨ ∃ rest, tail = '\x00' :: rest) :
    readCommit (c.front ++ fields ++ tail) = some {
      sha := c.sha.1, short := c.short.1, time := c.time, parents := c.parents.length
      author := (fields.splitOn '\x1f').getD 0 []
      subject := List.intercalate ['\x1f'] ((fields.splitOn '\x1f').drop 1)
      stats := (tail.splitOn '\x00').tail.filterMap parseNumstatRecord } := by
  have hnul : '\x00' ∉ c.front ++ fields := fun hmem =>
    (List.mem_append.mp hmem).elim (c.not_mem_front rfl rfl (by decide) (by decide)) hfields
  have hparts : (c.front ++ fields ++ tail).splitOn '\x00' = (c.front ++ fields) :: (tail.splitOn '\x00').tail := by
    rw [splitOn_append_of_not_mem hnul]
    obtain rfl | ⟨rest, rfl⟩ := htail
    · simp
    · have hsplit := List.splitOn_append_cons_self_of_not_mem (List.not_mem_nil (a := '\x00')) rest
      rw [List.nil_append] at hsplit
      rw [hsplit, List.modifyHead_cons, List.append_nil, List.tail_cons]
  have hsplit : (c.front ++ fields).splitOn '\x1f' =
      [c.sha.1, c.short.1, natText c.time, c.parentsText] ++ fields.splitOn '\x1f' :=
    splitOn_terminated (c.not_mem_fields rfl rfl (by decide)) fields
  have htime : numberOr0 (natText c.time) = c.time := by
    have hend : ∀ ch ∈ ([] : Text).head?, ch.isDigit = false := fun _ hno => by cases hno
    have hread := readNumber_natText c.time hend
    rw [List.append_nil] at hread
    rw [numberOr0, hread]
  have hfull : isFullSha c.sha.1 = true := c.sha.2
  have hparents := c.parents_spec
  rw [readCommit, hparts, List.headD_cons, hsplit]
  simp only [List.cons_append, List.nil_append, List.getD_cons_zero, List.getD_cons_succ, List.drop_succ_cons,
    hfull, if_true, htime, hparents, List.tail_cons]

/-- What the log's parser makes of a commit's record. -/
def given : List RawCommit := (c.text.splitOn '\x1e').filterMap readCommit

/-- None of the log's separators stands where it is looked for. -/
def Clean : Prop :=
  '\x1e' ∉ c.author.1 ∧ '\x1f' ∉ c.author.1 ∧ '\x1e' ∉ c.subject.1 ∧ ∀ row ∈ c.rows, '\x1e' ∉ row.path.1

theorem getD_splitOn_author (rest : Text) (h : '\x1f' ∈ c.author.1) :
    ((c.author.1 ++ '\x1f' :: rest).splitOn '\x1f').getD 0 [] ≠ c.author.1 := by
  obtain ⟨front, back, hauthor, hfront⟩ := List.eq_append_cons_of_mem h
  rw [hauthor, List.append_assoc, List.cons_append, List.splitOn_append_cons_self_of_not_mem hfront,
    List.getD_cons_zero]
  intro hno
  have hlength := congrArg List.length hno
  rw [List.length_append, List.length_cons] at hlength
  omega

variable {piece more : Text}

theorem exists_marked_row {rows : List LogRow}
    (h : terminated '\x00' (rows.map LogRow.text) = piece ++ '\x1e' :: more) (hpiece : '\x1e' ∉ piece) :
    ∃ before row after start rest, rows = before ++ row :: after ∧ row.path.1 = start ++ '\x1e' :: rest ∧
      piece = terminated '\x00' (before.map LogRow.text) ++
        (NumstatEntry.countsText ⟨row.counts, row.path, none⟩ ++ start) := by
  induction rows generalizing piece with
  | nil => exact absurd h.symm (by simp)
  | cons row rows ih =>
    have hcounts : '\x1e' ∉ NumstatEntry.countsText ⟨row.counts, row.path, none⟩ :=
      not_mem_countsText _ rfl (by decide) (by decide)
    rw [List.map_cons, terminated_cons, LogRow.text, List.append_assoc] at h
    obtain ⟨rest, hrest⟩ | ⟨-, start, rfl, hpath⟩ := first_mark h hpiece
    · exact absurd (hrest ▸ List.mem_append_right piece (List.mem_cons_self ..)) hcounts
    obtain ⟨rest, hrest⟩ | ⟨-, start, rfl, hrows⟩ := first_mark hpath fun hno => hpiece (List.mem_append_right _ hno)
    · exact ⟨[], row, rows, start, rest, rfl, hrest, rfl⟩
    cases start with
    | nil => exact absurd (List.cons.inj hrows).1 (by decide)
    | cons c start =>
      obtain ⟨rfl, hbehind⟩ := List.cons.inj hrows
      obtain ⟨before, marked, after, start, rest, rfl, hmarked, rfl⟩ := ih hbehind fun hno =>
        hpiece (List.mem_append_right _ (List.mem_append_right _ (List.mem_cons_of_mem _ hno)))
      refine ⟨row :: before, marked, after, start, rest, rfl, hmarked, ?_⟩
      rw [List.map_cons, terminated_cons, LogRow.text]
      simp only [List.append_assoc, List.cons_append]

theorem stats_piece (h : c.rowsText = piece ++ '\x1e' :: more) (hpiece : '\x1e' ∉ piece) :
    (piece.splitOn '\x00').filterMap parseNumstatRecord ≠ c.rows.map LogRow.stat := by
  obtain ⟨rest, hrest⟩ | ⟨-, start, rfl, hrows⟩ := first_mark h hpiece
  · have hmem : '\x1e' ∈ List.replicate c.gap '\n' := hrest ▸ List.mem_append_right piece (List.mem_cons_self ..)
    exact absurd (List.eq_of_mem_replicate hmem) (by decide)
  obtain ⟨before, row, after, path, rest, heq, hpath, rfl⟩ :=
    exists_marked_row hrows fun hno => hpiece (List.mem_append_right _ hno)
  have hnul : '\x00' ∉ NumstatEntry.countsText ⟨row.counts, row.path, none⟩ ++ path := fun hmem =>
    (List.mem_append.mp hmem).elim (nul_not_mem_countsText _) fun hmem =>
      row.path.2.2 (hpath ▸ List.mem_append_left _ hmem)
  rw [filterMap_rows before c.gap hnul, row.parseNumstatRecord_countsText, heq, List.map_append, List.map_cons]
  intro hno
  have hlast := List.append_cancel_left hno
  split_ifs at hlast
  · cases hlast
  · have hstat : row.stat.path = row.path.1 := by
      rw [LogRow.stat]
      split <;> rfl
    have hshort : path = row.stat.path := congrArg FileStat.path (List.cons.inj hlast).1
    rw [hstat, hpath] at hshort
    have hlength := congrArg List.length hshort
    rw [List.length_append, List.length_cons] at hlength
    omega

theorem readCommit_piece (h : c.text = piece ++ '\x1e' :: more) (hpiece : '\x1e' ∉ piece) :
    ∃ other, readCommit piece = some other ∧ other ≠ c.commit := by
  have hfront : '\x1e' ∉ c.front := c.not_mem_front rfl rfl (by decide) (by decide)
  rw [text_eq, List.append_assoc, List.append_assoc] at h
  obtain ⟨rest, hrest⟩ | ⟨-, body, rfl, hbody⟩ := first_mark h hpiece
  · exact absurd (hrest ▸ List.mem_append_right piece (List.mem_cons_self ..)) hfront
  have hclean : '\x1e' ∉ body := fun hno => hpiece (List.mem_append_right _ hno)
  obtain ⟨rest, hrest⟩ | ⟨-, fields, rfl, hfields⟩ := first_mark hbody hclean
  · -- The mark stands in the author.
    have hnul : '\x00' ∉ body := fun hno => c.author.2.1 (hrest ▸ List.mem_append_left _ hno)
    have hread := c.readCommit_front hnul (.inl rfl)
    rw [List.append_nil] at hread
    refine ⟨_, hread, fun hno => ?_⟩
    have hauthor : (body.splitOn '\x1f').getD 0 [] = c.author.1 := congrArg RawCommit.author hno
    obtain ⟨field, others, hsplit⟩ := List.exists_cons_of_ne_nil (List.splitOn_ne_nil '\x1f' body)
    have hshort : field.length ≤ body.length := length_le_of_mem_splitOn (hsplit ▸ List.mem_cons_self ..)
    rw [hsplit, List.getD_cons_zero] at hauthor
    rw [hauthor, hrest, List.length_append, List.length_cons] at hshort
    omega
  cases fields with
  | nil => exact absurd (List.cons.inj hfields).1 (by decide)
  | cons sep subject =>
    rw [List.cons_append, List.cons_append] at hfields
    obtain ⟨rfl, hbehind⟩ := List.cons.inj hfields
    have hsubject : '\x1e' ∉ subject := fun hno =>
      hclean (List.mem_append_right _ (List.mem_cons_of_mem _ hno))
    obtain ⟨rest, hrest⟩ | ⟨-, rows, rfl, hrows⟩ := first_mark hbehind hsubject
    · -- The mark stands in the subject.
      have hnul : '\x00' ∉ c.author.1 ++ '\x1f' :: subject := fun hno => by
        obtain hno | hno := List.mem_append.mp hno
        · exact c.author.2.1 hno
        · obtain hno | hno := List.mem_cons.mp hno
          · exact absurd hno (by decide)
          · exact c.subject.2.1 (hrest ▸ List.mem_append_left _ hno)
      have hread := c.readCommit_front hnul (.inl rfl)
      rw [List.append_nil] at hread
      refine ⟨_, hread, fun hno => ?_⟩
      have hauthor : '\x1f' ∉ c.author.1 := fun hmem =>
        c.getD_splitOn_author subject hmem (congrArg RawCommit.author hno)
      have hshort := congrArg RawCommit.subject hno
      dsimp only [commit] at hshort
      rw [List.splitOn_append_cons_self_of_not_mem hauthor, List.drop_succ_cons, List.drop_zero,
        List.intercalate_splitOn, hrest] at hshort
      have hlength := congrArg List.length hshort
      rw [List.length_append, List.length_cons] at hlength
      omega
    · -- The mark stands in a row.
      cases rows with
      | nil => exact absurd (List.cons.inj hrows).1 (by decide)
      | cons sep rows =>
        rw [List.cons_append] at hrows
        obtain ⟨rfl, hmarks⟩ := List.cons.inj hrows
        have hmarked : '\x1e' ∉ rows := fun hno =>
          hsubject (List.mem_append_right _ (List.mem_cons_of_mem _ hno))
        have hnul : '\x00' ∉ c.author.1 ++ '\x1f' :: c.subject.1 := fun hno => by
          obtain hno | hno := List.mem_append.mp hno
          · exact c.author.2.1 hno
          · obtain hno | hno := List.mem_cons.mp hno
            · exact absurd hno (by decide)
            · exact c.subject.2.1 hno
        have hread := c.readCommit_front hnul (.inr ⟨rows, rfl⟩)
        rw [List.append_assoc, List.append_assoc, List.cons_append] at hread
        refine ⟨_, hread, fun hno => c.stats_piece hmarks hmarked ?_⟩
        have hstats := congrArg RawCommit.stats hno
        have hsplit := List.splitOn_append_cons_self_of_not_mem (List.not_mem_nil (a := '\x00')) rows
        rw [List.nil_append] at hsplit
        dsimp only at hstats
        rwa [hsplit, List.tail_cons] at hstats

theorem mark_mem_text : '\x1e' ∈ c.text ↔
    '\x1e' ∈ c.author.1 ∨ '\x1e' ∈ c.subject.1 ∨ ∃ row ∈ c.rows, '\x1e' ∈ row.path.1 := by
  have hfront : '\x1e' ∉ c.front := c.not_mem_front rfl rfl (by decide) (by decide)
  have hrows : '\x1e' ∈ c.rowsText ↔ ∃ row ∈ c.rows, '\x1e' ∈ row.path.1 := by
    have hcounts (row : LogRow) : '\x1e' ∉ NumstatEntry.countsText ⟨row.counts, row.path, none⟩ :=
      not_mem_countsText _ rfl (by decide) (by decide)
    simp [rowsText, terminated, LogRow.text, hcounts]
  simp [text_eq, hfront, hrows]

theorem readCommit_text : ∃ other, readCommit c.text = some other ∧ (other = c.commit ↔ '\x1f' ∉ c.author.1) := by
  have hnul : '\x00' ∉ c.author.1 ++ '\x1f' :: c.subject.1 := fun hno => by
    obtain hno | hno := List.mem_append.mp hno
    · exact c.author.2.1 hno
    · obtain hno | hno := List.mem_cons.mp hno
      · exact absurd hno (by decide)
      · exact c.subject.2.1 hno
  have hread := c.readCommit_front hnul (.inr ⟨c.rowsText, rfl⟩)
  rw [← text_eq] at hread
  refine ⟨_, hread, fun hsame hno => c.getD_splitOn_author _ hno (congrArg RawCommit.author hsame), fun hauthor => ?_⟩
  have hstats : ('\x00' :: c.rowsText).splitOn '\x00' = [] :: c.rowsText.splitOn '\x00' :=
    List.splitOn_append_cons_self_of_not_mem (List.not_mem_nil (a := '\x00')) c.rowsText
  have hrows := filterMap_rows c.rows c.gap (List.not_mem_nil (a := '\x00'))
  have hnone : parseNumstatRecord [] = none := rfl
  rw [List.append_nil, hnone, Option.toList_none, List.append_nil] at hrows
  rw [hstats, List.tail_cons, rowsText, hrows, List.splitOn_append_cons_self_of_not_mem hauthor, List.getD_cons_zero,
    List.drop_succ_cons, List.drop_zero, List.intercalate_splitOn, commit]

theorem given_eq_iff : c.given = [c.commit] ↔ c.Clean := by
  by_cases hmark : '\x1e' ∈ c.text
  · obtain ⟨piece, more, htext, hpiece⟩ := List.eq_append_cons_of_mem hmark
    obtain ⟨other, hread, hne⟩ := c.readCommit_piece htext hpiece
    rw [given, htext, List.splitOn_append_cons_self_of_not_mem hpiece, List.filterMap_cons, hread]
    refine iff_of_false (fun hno => hne (List.cons.inj hno).1) fun hclean => ?_
    obtain hno | hno | ⟨row, hrow, hno⟩ := c.mark_mem_text.mp hmark
    · exact hclean.1 hno
    · exact hclean.2.2.1 hno
    · exact hclean.2.2.2 row hrow hno
  · obtain ⟨other, hread, hiff⟩ := c.readCommit_text
    rw [given, List.splitOn_eq_singleton hmark, List.filterMap_cons, hread, List.filterMap_nil, List.singleton_inj,
      hiff]
    rw [mark_mem_text] at hmark
    simp only [not_or, not_exists, not_and] at hmark
    exact ⟨fun hauthor => ⟨hmark.1, hauthor, hmark.2.1, hmark.2.2⟩, fun hclean => hclean.2.1⟩

theorem given_pos : 1 ≤ c.given.length := by
  by_cases hmark : '\x1e' ∈ c.text
  · obtain ⟨piece, more, htext, hpiece⟩ := List.eq_append_cons_of_mem hmark
    obtain ⟨other, hread, -⟩ := c.readCommit_piece htext hpiece
    rw [given, htext, List.splitOn_append_cons_self_of_not_mem hpiece, List.filterMap_cons, hread]
    exact Nat.succ_le_succ (Nat.zero_le _)
  · obtain ⟨other, hread, -⟩ := c.readCommit_text
    rw [given, List.splitOn_eq_singleton hmark, List.filterMap_cons, hread]
    exact Nat.le_refl _

end LogEntry

theorem parseLogZ_iff (commits : List LogEntry) :
    parseLogZ (logText commits) = commits.map LogEntry.commit ↔ ∀ c ∈ commits, c.Clean := by
  have hgiven : parseLogZ (logText commits) = commits.flatMap LogEntry.given := by
    rw [parseLogZ, logText, splitOn_flatMap_cons, List.drop_one, List.tail_cons, List.filterMap_flatMap]
    rfl
  rw [hgiven, flatMap_eq_map_iff_of_ge fun c _ => c.given_pos]
  exact forall₂_congr fun c _ => c.given_eq_iff

/-- What git prints is parsed back exactly: rows of `--numstat` and `--raw` always, status entries exactly where no
path has a line feed with `# ` behind it, and commits exactly where no author has a separator of the log in it, and no
subject and no path its mark. -/
theorem parse_exact_iff (headers : List Header) (records : List StatusRecord) (counts : List NumstatEntry)
    (raws : List RawEntry) (commits : List LogEntry) :
    ((parseStatusV2 (statusOutput headers records)).entries = records.map StatusRecord.entry ↔
      ∀ r ∈ records, ¬"\n# ".toList <:+: r.path.1) ∧
    parseNumstatZ (terminated '\x00' (counts.flatMap NumstatEntry.texts)) = counts.map NumstatEntry.row ∧
    parseRawZ (terminated '\x00' (raws.flatMap RawEntry.texts)) = raws.map RawEntry.row ∧
    (parseLogZ (logText commits) = commits.map LogEntry.commit ↔ ∀ c ∈ commits, c.Clean) :=
  ⟨parseStatusV2_iff headers records, parseNumstatZ_text counts, parseRawZ_text raws, parseLogZ_iff commits⟩

private def untrackedFile (name : String) (h : name.toList ≠ [] ∧ '\x00' ∉ name.toList) : StatusRecord :=
  .untracked ⟨name.toList, h⟩

private def onMain : List Header := [⟨"# branch.head main".toList, by decide⟩]

private def spacedFile : StatusRecord := untrackedFile "# a\tb c" (by decide)

theorem not_marked_spacedFile : ¬"\n# ".toList <:+: spacedFile.path.1 := fun hmark =>
  absurd (hmark.subset (show '\n' ∈ "\n# ".toList by decide)) (show '\n' ∉ "# a\tb c".toList by decide)

/-- A name with blanks, a tab and a number sign in it is read back. -/
theorem parse_exact_iff_spaced :
    (parseStatusV2 (statusOutput onMain [spacedFile])).entries = [spacedFile].map StatusRecord.entry :=
  (parse_exact_iff onMain [spacedFile] [] [] []).1.mpr fun _ hr => List.mem_singleton.mp hr ▸ not_marked_spacedFile

theorem isFullSha_replicate : isFullSha (List.replicate 40 'a') = true := by decide +kernel

private def oneFile (path : String) (h : path.toList ≠ [] ∧ '\x00' ∉ path.toList) : LogEntry where
  sha := ⟨List.replicate 40 'a', isFullSha_replicate⟩
  short := ⟨['a', 'b'], by decide⟩
  time := 1700000000
  parents := []
  author := ⟨"Ada".toList, by decide⟩
  subject := ⟨"fix".toList, by decide⟩
  rows := [⟨some (1, 2), ⟨path.toList, h⟩⟩]
  gap := 1

/-- An untracked file whose name has a line feed with `# ` behind it is not listed, and a commit's file whose name has
a record separator in it is listed under another name. -/
theorem crafted_names_hide :
    (parseStatusV2 (statusOutput [] [untrackedFile "evil\n# .sh" (by decide)])).entries = [] ∧
      (parseLogZ (logText [oneFile "a\x1eb" (by decide)])).map (fun c => c.stats.map (·.path)) = [["a".toList]] := by
  decide +kernel

end Sightr.Git
