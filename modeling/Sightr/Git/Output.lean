import Sightr.Files.Git
import Sightr.Lib.Separated
import Mathlib.Data.List.Induction

/-!
# What git prints

The parsers of git's machine output in `bridge/workdir-git.ts` and `bridge/workdir-review.ts`, against what git prints
with `-z`: status entries under branch headers, and `--numstat` and `--raw` rows. A path is any text without the
terminator, so it may hold whatever a parser looks for.
-/

namespace Sightr.Git

open JsText Separated Files

abbrev Text := List Char

/-! ### The parsers -/

structure NumstatRow where
  path : PathText
  oldPath : Option PathText
  added : Nat
  removed : Nat
  binary : Bool
  deriving DecidableEq

/-- The two counts at the start of a `--numstat` record, and the path behind them. -/
def readCounts (record : Text) : Option (Option Nat × Option Nat × Text) := do
  let (added, rest) ← readCount record
  let (removed, rest) ← readCount (← after? ['\t'] rest)
  let path ← after? ['\t'] rest
  return (added, removed, path)

def numstatRow (added removed : Option Nat) (path : PathText) (oldPath : Option PathText) : NumstatRow :=
  let binary := added.isNone || removed.isNone
  { path, oldPath, binary
    added := if binary then 0 else added.getD 0
    removed := if binary then 0 else removed.getD 0 }

/-- The records of `--numstat -z`: an empty path says that the old and the new one follow. -/
def numstatRecords : List Text → List NumstatRow
  | [] => []
  | record :: rest =>
    match readCounts record with
    | none => numstatRecords rest
    | some (added, removed, []) =>
      match rest with
      | oldPath :: path :: rest =>
        (if path = [] ∨ oldPath = [] then [] else [numstatRow added removed path (some oldPath)]) ++
          numstatRecords rest
      | _ => []
    | some (added, removed, path) => numstatRow added removed path none :: numstatRecords rest

def parseNumstatZ (stdout : Text) : List NumstatRow := numstatRecords (stdout.splitOn '\x00')

structure RawRow where
  status : Text
  path : PathText
  oldPath : Option PathText
  oldMode : Text
  newMode : Text
  oldOid : Text
  newOid : Text
  deriving DecidableEq

def isDigits (s : Text) : Bool := s ≠ [] && s.all Char.isDigit
def isOid (s : Text) : Bool := s ≠ [] && s.all isHex

def isStatus : Text → Bool
  | letter :: score => letter.isUpper && score.all Char.isDigit
  | [] => false

/-- `:<old mode> <new mode> <old oid> <new oid> <status>`, and nothing else. -/
def readRaw (record : Text) : Option (Text × Text × Text × Text × Text) := do
  match (← after? [':'] record).splitOn ' ' with
  | [oldMode, newMode, oldOid, newOid, status] =>
    if isDigits oldMode && isDigits newMode && isOid oldOid && isOid newOid && isStatus status then
      some (oldMode, newMode, oldOid, newOid, status)
    else none
  | _ => none

def isRename (status : Text) : Bool := status.head? = some 'R' || status.head? = some 'C'

/-- The records of `--raw -z`: a rename or a copy has two paths. -/
def rawRecords : List Text → List RawRow
  | [] => []
  | record :: rest =>
    match readRaw record with
    | none => rawRecords rest
    | some (oldMode, newMode, oldOid, newOid, status) =>
      if isRename status then
        match rest with
        | oldPath :: path :: rest =>
          (if oldPath = [] ∨ path = [] then []
            else [{ status, path, oldPath := some oldPath, oldMode, newMode, oldOid, newOid }]) ++ rawRecords rest
        | _ => []
      else
        match rest with
        | path :: rest =>
          (if path = [] then [] else [{ status, path, oldPath := none, oldMode, newMode, oldOid, newOid }]) ++
            rawRecords rest
        | [] => []

def parseRawZ (stdout : Text) : List RawRow := rawRecords (stdout.splitOn '\x00')

/-! ### What git has to say -/

abbrev Word := { w : Text // ∀ c ∈ w, c ≠ ' ' ∧ c ≠ '\n' ∧ c ≠ '\x00' }

abbrev Path := { p : PathText // p ≠ [] ∧ '\x00' ∉ p }

abbrev Letter := { c : Char // c ≠ ' ' ∧ c ≠ '\n' ∧ c ≠ '\x00' }

/-- A line of the headers: a ref's name in it has no blank line end. -/
abbrev Header := { h : Text // startsWith "# ".toList h = true ∧ '\n' ∉ h ∧ '\x00' ∉ h }

inductive StatusRecord
  | ordinary (x y : Letter) (submodule headMode indexMode worktreeMode headOid indexOid : Word) (path : Path)
  | unmerged (x y : Letter) (submodule mode1 mode2 mode3 worktreeMode oid1 oid2 oid3 : Word) (path : Path)
  | untracked (path : Path)

namespace StatusRecord

def path : StatusRecord → Path
  | ordinary _ _ _ _ _ _ _ _ path => path
  | unmerged _ _ _ _ _ _ _ _ _ _ path => path
  | untracked path => path

def words : StatusRecord → List Text
  | ordinary x y submodule headMode indexMode worktreeMode headOid indexOid _ =>
    [['1'], [x.1, y.1], submodule.1, headMode.1, indexMode.1, worktreeMode.1, headOid.1, indexOid.1]
  | unmerged x y submodule mode1 mode2 mode3 worktreeMode oid1 oid2 oid3 _ =>
    [['u'], [x.1, y.1], submodule.1, mode1.1, mode2.1, mode3.1, worktreeMode.1, oid1.1, oid2.1, oid3.1]
  | untracked _ => [['?']]

def text (r : StatusRecord) : Text := terminated ' ' r.words ++ r.path.1

def entry : StatusRecord → StatusEntry
  | ordinary x y _ _ _ _ _ _ path => { path := path.1, x := some x.1, y := some y.1, tracked := true }
  | unmerged x y _ _ _ _ _ _ _ _ path => { path := path.1, x := some x.1, y := some y.1, tracked := true }
  | untracked path => { path := path.1, x := some '?', y := some '?', tracked := false }

end StatusRecord

/-- The output of `git status -z`, as its callers cut it. -/
def statusText (headers : List Header) (records : List StatusRecord) : Text :=
  terminated '\x00' (headers.map (·.1) ++ records.map StatusRecord.text)

def statusOutput (headers : List Header) (records : List StatusRecord) : List Text :=
  ((statusText headers records).splitOn '\x00').filter (· ≠ [])

/-- A row of `--numstat`: a binary file has no counts. -/
structure NumstatEntry where
  counts : Option (Nat × Nat)
  path : Path
  oldPath : Option Path

namespace NumstatEntry

variable (e : NumstatEntry)

def countTexts : Text × Text :=
  match e.counts with
  | some (added, removed) => (natText added, natText removed)
  | none => (['-'], ['-'])

def countsText : Text := e.countTexts.1 ++ '\t' :: e.countTexts.2 ++ ['\t']

def texts : List Text :=
  match e.oldPath with
  | some oldPath => [e.countsText, oldPath.1, e.path.1]
  | none => [e.countsText ++ e.path.1]

def row : NumstatRow := numstatRow (e.counts.map Prod.fst) (e.counts.map Prod.snd) e.path.1 (e.oldPath.map (·.1))

end NumstatEntry

structure RawEntry where
  oldMode : { s : Text // isDigits s = true }
  newMode : { s : Text // isDigits s = true }
  oldOid : { s : Text // isOid s = true }
  newOid : { s : Text // isOid s = true }
  status : { s : Text // isStatus s = true }
  path : Path
  oldPath : Option Path
  /-- A rename or a copy has an old path, and nothing else has. -/
  renamed : oldPath.isSome = isRename status.1

namespace RawEntry

variable (e : RawEntry)

def fields : List Text := [e.oldMode.1, e.newMode.1, e.oldOid.1, e.newOid.1, e.status.1]

def texts : List Text := (':' :: List.intercalate [' '] e.fields) :: (e.oldPath.toList.map (·.1) ++ [e.path.1])

def row : RawRow where
  status := e.status.1
  path := e.path.1
  oldPath := e.oldPath.map (·.1)
  oldMode := e.oldMode.1
  newMode := e.newMode.1
  oldOid := e.oldOid.1
  newOid := e.newOid.1

end RawEntry

/-! ### Numbers and marks -/

theorem after?_append (marker rest : Text) : after? marker (marker ++ rest) = some rest := by
  have hstarts : startsWith marker (marker ++ rest) = true :=
    List.isPrefixOf_iff_prefix.mpr (List.prefix_append marker rest)
  rw [after?, if_pos hstarts, List.drop_left]

theorem ofDigits_reverse (digits : Text) :
    Nat.ofDigits 10 (digits.reverse.map fun c => c.toNat - '0'.toNat) = Nat.ofDigitChars 10 digits 0 := by
  induction digits using List.reverseRecOn with
  | nil => rfl
  | append_singleton digits c ih =>
    rw [List.reverse_append, List.reverse_singleton, List.singleton_append, List.map_cons, Nat.ofDigits_cons, ih,
      Nat.ofDigitChars_append, Nat.ofDigitChars_cons, Nat.ofDigitChars_nil, Nat.add_comm]

theorem natText_ne_nil (n : Nat) : natText n ≠ [] := by
  rw [natText_eq]
  exact List.ne_nil_of_length_pos Nat.length_toDigits_pos

variable {rest : Text}

theorem readNumber_natText (n : Nat) (h : ∀ c ∈ rest.head?, c.isDigit = false) :
    readNumber (natText n ++ rest) = some (n, rest) := by
  have hdigits : ∀ c ∈ natText n, c.isDigit = true := fun c => isDigit_of_mem_natText
  have hrest : rest.takeWhile Char.isDigit = [] ∧ rest.dropWhile Char.isDigit = rest := by
    cases rest with
    | nil => exact ⟨rfl, rfl⟩
    | cons c rest =>
      have hc := h c rfl
      exact ⟨by rw [List.takeWhile_cons, hc]; rfl, by rw [List.dropWhile_cons, hc]; rfl⟩
  have htake : (natText n ++ rest).takeWhile Char.isDigit = natText n := by
    rw [List.takeWhile_append_of_pos hdigits, hrest.1, List.append_nil]
  have hdrop : (natText n ++ rest).dropWhile Char.isDigit = rest := by
    rw [List.dropWhile_append_of_pos hdigits, hrest.2]
  rw [readNumber, htake, hdrop, if_neg (by simpa using natText_ne_nil n), ofDigits_reverse, natText_eq,
    Nat.ofDigitChars_ten_toDigits]

theorem readCount_natText (n : Nat) (h : ∀ c ∈ rest.head?, c.isDigit = false) :
    readCount (natText n ++ rest) = some (some n, rest) := by
  have hminus : (natText n ++ rest).head? ≠ some '-' := by
    cases htext : natText n with
    | nil => exact absurd htext (natText_ne_nil n)
    | cons c text =>
      intro hno
      obtain rfl : c = '-' := by simpa using hno
      exact absurd (isDigit_of_mem_natText (htext ▸ List.mem_cons_self ..)) (by decide)
  rw [readCount, readNumber_natText n h]
  · rfl
  · intro rest' heq
    rw [heq] at hminus
    exact hminus rfl

/-! ### The rows of `--numstat` -/

variable (e : NumstatEntry)

theorem readCounts_countsText (path : Text) :
    readCounts (e.countsText ++ path) = some (e.counts.map Prod.fst, e.counts.map Prod.snd, path) := by
  have htab (rest : Text) : ∀ c ∈ ('\t' :: rest).head?, c.isDigit = false := by
    intro c hc
    cases hc
    rfl
  have hafter (rest : Text) : after? ['\t'] ('\t' :: rest) = some rest := after?_append ['\t'] rest
  rw [NumstatEntry.countsText, NumstatEntry.countTexts, readCounts]
  cases e.counts with
  | none =>
    simp only [List.cons_append, List.nil_append, readCount, Option.bind_eq_bind, Option.bind_some, hafter]
    rfl
  | some counts =>
    simp only [List.append_assoc, List.cons_append, List.nil_append]
    rw [readCount_natText _ (htab _)]
    simp only [Option.bind_eq_bind, Option.bind_some, hafter]
    rw [readCount_natText _ (htab _)]
    simp only [Option.bind_some, hafter]
    rfl

variable {c : Char}

theorem not_mem_natText {n : Nat} (h : c.isDigit = false) : c ∉ natText n := fun hmem => by
  rw [isDigit_of_mem_natText hmem] at h
  cases h

theorem not_mem_countsText (hdigit : c.isDigit = false) (hminus : c ≠ '-') (htab : c ≠ '\t') : c ∉ e.countsText := by
  have hnumber (n : Nat) : c ∉ natText n := not_mem_natText hdigit
  rw [NumstatEntry.countsText, NumstatEntry.countTexts]
  cases e.counts with
  | none => simp [hminus, htab]
  | some counts => simp [hnumber, htab]

theorem nul_not_mem_countsText : '\x00' ∉ e.countsText :=
  not_mem_countsText e rfl (by decide) (by decide)

theorem nul_not_mem_texts : ∀ text ∈ e.texts, '\x00' ∉ text := by
  have hcounts := nul_not_mem_countsText e
  have hpath := e.path.2.2
  rw [NumstatEntry.texts]
  cases e.oldPath with
  | none => simpa using ⟨hcounts, hpath⟩
  | some oldPath => simpa using ⟨hcounts, oldPath.2.2, hpath⟩

theorem numstatRecords_texts (rest : List Text) : numstatRecords (e.texts ++ rest) = e.row :: numstatRecords rest := by
  have hpath := e.path.2.1
  rw [NumstatEntry.texts, NumstatEntry.row]
  cases hold : e.oldPath with
  | none =>
    have hread := readCounts_countsText e e.path.1
    rw [List.singleton_append, numstatRecords, hread]
    cases hcons : e.path.1 with
    | nil => exact absurd hcons hpath
    | cons c path => rfl
  | some oldPath =>
    have hread := readCounts_countsText e []
    rw [List.append_nil] at hread
    rw [List.cons_append, List.cons_append, List.singleton_append, numstatRecords, hread]
    simp only [hpath, oldPath.2.1, or_self, if_false, List.singleton_append]
    rfl

theorem parseNumstatZ_text (entries : List NumstatEntry) :
    parseNumstatZ (terminated '\x00' (entries.flatMap NumstatEntry.texts)) = entries.map NumstatEntry.row := by
  have hnul : ∀ text ∈ entries.flatMap NumstatEntry.texts, '\x00' ∉ text := by
    intro text htext
    obtain ⟨e, -, htext⟩ := List.mem_flatMap.mp htext
    exact nul_not_mem_texts e text htext
  have hsplit := splitOn_terminated hnul []
  rw [List.append_nil] at hsplit
  rw [parseNumstatZ, hsplit]
  clear hsplit hnul
  induction entries with
  | nil => rfl
  | cons e entries ih => rw [List.flatMap_cons, List.append_assoc, numstatRecords_texts, ih, List.map_cons]

/-! ### The rows of `--raw` -/

variable {s : Text}

theorem not_mem_of_all {p : Char → Bool} (h : s.all p = true) (hc : p c = false) : c ∉ s :=
  fun hmem => by
    rw [List.all_eq_true.mp h c hmem] at hc
    cases hc

theorem not_mem_of_isDigits (h : isDigits s = true) (hc : c.isDigit = false) : c ∉ s :=
  not_mem_of_all (Bool.and_eq_true_iff.mp h).2 hc

theorem not_mem_of_isOid (h : isOid s = true) (hc : isHex c = false) : c ∉ s :=
  not_mem_of_all (Bool.and_eq_true_iff.mp h).2 hc

theorem not_mem_of_isStatus (h : isStatus s = true) (hupper : c.isUpper = false) (hdigit : c.isDigit = false) :
    c ∉ s := by
  cases s with
  | nil => exact List.not_mem_nil
  | cons letter score =>
    obtain ⟨hletter, hscore⟩ := Bool.and_eq_true_iff.mp h
    refine List.not_mem_cons_of_ne_of_not_mem (fun hno => ?_) (not_mem_of_all hscore hdigit)
    rw [hno, hletter] at hupper
    cases hupper

namespace RawEntry

variable (e : RawEntry)

theorem not_mem_fields {c : Char} (hhex : isHex c = false) (hdigit : c.isDigit = false) (hupper : c.isUpper = false) :
    ∀ field ∈ e.fields, c ∉ field := by
  simp only [fields, List.forall_mem_cons]
  exact ⟨not_mem_of_isDigits e.oldMode.2 hdigit, not_mem_of_isDigits e.newMode.2 hdigit,
    not_mem_of_isOid e.oldOid.2 hhex, not_mem_of_isOid e.newOid.2 hhex, not_mem_of_isStatus e.status.2 hupper hdigit,
    fun _ hno => absurd hno List.not_mem_nil⟩

theorem readRaw_fields : readRaw (':' :: List.intercalate [' '] e.fields) =
    some (e.oldMode.1, e.newMode.1, e.oldOid.1, e.newOid.1, e.status.1) := by
  have hafter : after? [':'] (':' :: List.intercalate [' '] e.fields) = some (List.intercalate [' '] e.fields) :=
    after?_append [':'] _
  have hsplit : (List.intercalate [' '] e.fields).splitOn ' ' = e.fields :=
    List.splitOn_intercalate ' ' (e.not_mem_fields rfl rfl rfl) (by simp [fields])
  rw [readRaw, hafter]
  simp only [Option.bind_eq_bind, Option.bind_some, hsplit]
  simp only [fields, e.oldMode.2, e.newMode.2, e.oldOid.2, e.newOid.2, e.status.2, Bool.and_self, if_true]

theorem nul_not_mem_texts : ∀ text ∈ e.texts, '\x00' ∉ text := by
  have hfields : '\x00' ∉ List.intercalate [' '] e.fields := fun hmem => by
    obtain ⟨field, hfield, hnul⟩ | hblank := mem_intercalate hmem
    · exact e.not_mem_fields rfl rfl rfl field hfield hnul
    · exact absurd hblank (by decide)
  have hpath := e.path.2.2
  rw [texts]
  cases e.oldPath with
  | none => simpa using ⟨hfields, hpath⟩
  | some oldPath => simpa using ⟨hfields, oldPath.2.2, hpath⟩

theorem rawRecords_texts (rest : List Text) : rawRecords (e.texts ++ rest) = e.row :: rawRecords rest := by
  have hpath := e.path.2.1
  have hrenamed := e.renamed
  rw [texts, List.cons_append, rawRecords, readRaw_fields, row]
  dsimp only
  cases hold : e.oldPath with
  | none =>
    rw [hold] at hrenamed
    rw [if_neg (by rw [← hrenamed]; exact Bool.false_ne_true)]
    simp [hpath]
  | some oldPath =>
    rw [hold] at hrenamed
    rw [if_pos (by rw [← hrenamed]; rfl)]
    simp [hpath, oldPath.2.1]

end RawEntry

theorem parseRawZ_text (entries : List RawEntry) :
    parseRawZ (terminated '\x00' (entries.flatMap RawEntry.texts)) = entries.map RawEntry.row := by
  have hnul : ∀ text ∈ entries.flatMap RawEntry.texts, '\x00' ∉ text := by
    intro text htext
    obtain ⟨e, -, htext⟩ := List.mem_flatMap.mp htext
    exact e.nul_not_mem_texts text htext
  have hsplit := splitOn_terminated hnul []
  rw [List.append_nil] at hsplit
  rw [parseRawZ, hsplit]
  clear hsplit hnul
  induction entries with
  | nil => rfl
  | cons e entries ih => rw [List.flatMap_cons, List.append_assoc, RawEntry.rawRecords_texts, ih, List.map_cons]

/-! ### Status entries -/

def added (record : Text) : List StatusEntry :=
  let lines := if (cut "\n# ".toList record).isSome then record.splitOn '\n' else [record]
  if isHeader (lines.getLastD []) then [] else (readEntry (lines.getLastD [])).toList

theorem entries_header (st : ParsedStatus) (line : Text) : (header st line).entries = st.entries := by
  unfold header
  split
  · split_ifs <;> rfl
  · split_ifs
    · rfl
    · split
      · rfl
      · split <;> rfl

theorem entries_readRecord (st : ParsedStatus) (record : Text) :
    (readRecord st record).entries = st.entries ++ added record := by
  have hfold (lines : List Text) (st : ParsedStatus) : (lines.foldl header st).entries = st.entries := by
    induction lines generalizing st with
    | nil => rfl
    | cons line lines ih => rw [List.foldl_cons, ih, entries_header]
  simp only [readRecord, added]
  split_ifs
  · rw [entries_header, hfold, List.append_nil]
  · rw [hfold]
  · rw [entries_header, hfold, List.append_nil]
  · rw [hfold]

theorem entries_parseStatusV2 (records : List Text) : (parseStatusV2 records).entries = records.flatMap added := by
  have hfold (st : ParsedStatus) : (records.foldl readRecord st).entries = st.entries ++ records.flatMap added := by
    induction records generalizing st with
    | nil => exact (List.append_nil _).symm
    | cons record records ih => rw [List.foldl_cons, ih, entries_readRecord, List.append_assoc, List.flatMap_cons]
  rw [parseStatusV2, hfold]
  rfl

theorem cut_isSome_iff (marker s : Text) : (cut marker s).isSome = true ↔ marker <:+: s := by
  induction s with
  | nil =>
    rw [cut, List.infix_nil]
    cases marker with
    | nil => simp
    | cons c marker => simp
  | cons c s ih =>
    rw [cut, List.infix_cons_iff, ← ih]
    by_cases hstarts : startsWith marker (c :: s) = true
    · rw [if_pos hstarts]
      exact iff_of_true rfl (.inl (List.isPrefixOf_iff_prefix.mp hstarts))
    · rw [if_neg hstarts, Option.isSome_map]
      exact (or_iff_right fun hno => hstarts (List.isPrefixOf_iff_prefix.mpr hno)).symm

theorem infix_append_iff {marks front l : Text} (h : c ∉ front) :
    (c :: marks) <:+: front ++ l ↔ (c :: marks) <:+: l := by
  induction front with
  | nil => rfl
  | cons a front ih =>
    obtain ⟨hne, hfront⟩ := List.ne_and_not_mem_of_not_mem_cons h
    rw [List.cons_append, List.infix_cons_iff, ih hfront]
    exact or_iff_right fun hno => hne (List.cons_prefix_cons.mp hno).1

namespace StatusRecord

variable (r : StatusRecord)

theorem words_spec : ∀ word ∈ r.words, ' ' ∉ word ∧ '\n' ∉ word ∧ '\x00' ∉ word := by
  have hword (w : Word) : ' ' ∉ w.1 ∧ '\n' ∉ w.1 ∧ '\x00' ∉ w.1 :=
    ⟨fun hmem => (w.2 _ hmem).1 rfl, fun hmem => (w.2 _ hmem).2.1 rfl, fun hmem => (w.2 _ hmem).2.2 rfl⟩
  have hxy (x y : Letter) : ' ' ∉ [x.1, y.1] ∧ '\n' ∉ [x.1, y.1] ∧ '\x00' ∉ [x.1, y.1] := by
    have hx := x.2
    have hy := y.2
    simp only [List.mem_cons, List.not_mem_nil, or_false, not_or]
    exact ⟨⟨hx.1.symm, hy.1.symm⟩, ⟨hx.2.1.symm, hy.2.1.symm⟩, hx.2.2.symm, hy.2.2.symm⟩
  cases r with
  | ordinary x y =>
    simp only [words, List.forall_mem_cons, hword, hxy]
    decide
  | unmerged x y =>
    simp only [words, List.forall_mem_cons, hword, hxy]
    decide
  | untracked =>
    simp only [words, List.forall_mem_cons]
    decide

theorem not_mem_front {c : Char} (hc : c ≠ ' ') (h : ∀ word ∈ r.words, c ∉ word) : c ∉ terminated ' ' r.words := by
  intro hmem
  obtain ⟨word, hword, hmem⟩ := List.mem_flatMap.mp hmem
  obtain hmem | hmem := List.mem_append.mp hmem
  · exact h word hword hmem
  · exact hc (List.mem_singleton.mp hmem)

theorem nul_not_mem_text : '\x00' ∉ r.text := by
  have hfront := r.not_mem_front (by decide) fun word hword => (r.words_spec word hword).2.2
  exact fun hmem => (List.mem_append.mp hmem).elim hfront r.path.2.2

theorem marked_iff : "\n# ".toList <:+: r.text ↔ "\n# ".toList <:+: r.path.1 :=
  infix_append_iff (r.not_mem_front (by decide) fun word hword => (r.words_spec word hword).2.1)

theorem not_isHeader_text : isHeader r.text = false := by
  cases r <;> rfl

theorem readEntry_text : readEntry r.text = some r.entry := by
  have hsplit := splitOn_terminated (fun word hword => (r.words_spec word hword).1) r.path.1
  change r.text.splitOn ' ' = _ at hsplit
  have hjoin : joinBlank (r.path.1.splitOn ' ') = r.path.1 := List.intercalate_splitOn ' '
  have hpieces : 1 ≤ (r.path.1.splitOn ' ').length := List.length_pos_of_ne_nil (List.splitOn_ne_nil ' ' r.path.1)
  rw [readEntry, hsplit]
  generalize hrest : r.path.1.splitOn ' ' = pieces at hjoin hpieces ⊢
  have hlength (n : Nat) (h : r.words.length = n) : n + 1 ≤ (r.words ++ pieces).length := by
    rw [List.length_append, h]
    exact Nat.add_le_add_left hpieces n
  cases r with
  | ordinary x y submodule headMode indexMode worktreeMode headOid indexOid path =>
    rw [if_pos ⟨rfl, hlength 8 rfl⟩]
    exact congrArg (fun p => some (⟨p, some x.1, some y.1, true⟩ : StatusEntry)) hjoin
  | unmerged x y submodule mode1 mode2 mode3 worktreeMode oid1 oid2 oid3 path =>
    rw [if_neg fun hno => absurd (Option.some.inj hno.1) (by decide), if_pos ⟨rfl, hlength 10 rfl⟩]
    exact congrArg (fun p => some (⟨p, some x.1, some y.1, true⟩ : StatusEntry)) hjoin
  | untracked path =>
    rw [if_neg fun hno => absurd (Option.some.inj hno.1) (by decide),
      if_neg fun hno => absurd (Option.some.inj hno.1) (by decide), if_pos ⟨rfl, hlength 1 rfl⟩]
    exact congrArg (fun p => some (⟨p, some '?', some '?', false⟩ : StatusEntry)) hjoin

theorem added_text (h : ¬"\n# ".toList <:+: r.path.1) : added r.text = [r.entry] := by
  have hcut : ¬(cut "\n# ".toList r.text).isSome = true := by
    rw [cut_isSome_iff, r.marked_iff]
    exact h
  have hlast : [r.text].getLastD [] = r.text := rfl
  simp only [added, if_neg hcut, hlast, r.not_isHeader_text, Bool.false_eq_true, if_false, r.readEntry_text,
    Option.toList_some]

end StatusRecord

theorem path_suffix_of_readEntry {record : Text} {e : StatusEntry} (h : readEntry record = some e) :
    e.path <:+ record := by
  have hdrop (n : Nat) : joinBlank ((record.splitOn ' ').drop n) <:+ record := by
    have hsuffix := intercalate_drop_suffix (record.splitOn ' ') (x := ' ') n
    rwa [List.intercalate_splitOn] at hsuffix
  simp only [readEntry] at h
  split_ifs at h
  · exact Option.some.inj h ▸ hdrop 8
  · exact Option.some.inj h ▸ hdrop 10
  · exact Option.some.inj h ▸ hdrop 1

theorem StatusRecord.added_marked (r : StatusRecord) (h : "\n# ".toList <:+: r.path.1) :
    added r.text ≠ [r.entry] := by
  have hcut : (cut "\n# ".toList r.text).isSome = true := (cut_isSome_iff ..).mpr (r.marked_iff.mpr h)
  obtain ⟨front, back, hpath⟩ := List.append_of_mem (h.subset (show '\n' ∈ "\n# ".toList by decide))
  have hsplit : r.text.splitOn '\n' = (terminated ' ' r.words ++ front).splitOn '\n' ++ back.splitOn '\n' := by
    rw [StatusRecord.text, hpath, ← List.append_assoc, List.splitOn_append_cons_self]
  have hne := List.splitOn_ne_nil '\n' back
  have hlast : (r.text.splitOn '\n').getLastD [] ∈ back.splitOn '\n' := by
    rw [hsplit, List.getLastD_eq_getLast?, List.getLast?_append_of_ne_nil _ hne, List.getLast?_eq_some_getLast hne]
    exact List.getLast_mem hne
  intro hadded
  simp only [added, if_pos hcut] at hadded
  split_ifs at hadded
  obtain ⟨e, he⟩ : ∃ e, readEntry ((r.text.splitOn '\n').getLastD []) = some e := by
    cases hread : readEntry ((r.text.splitOn '\n').getLastD []) with
    | none =>
      rw [hread] at hadded
      cases hadded
    | some e => exact ⟨e, rfl⟩
  rw [he] at hadded
  obtain rfl : e = r.entry := by simpa using hadded
  have hlong := (path_suffix_of_readEntry he).length_le
  have hshort := length_le_of_mem_splitOn hlast
  have hentry : r.entry.path = r.path.1 := by cases r <;> rfl
  rw [hentry, hpath, List.length_append, List.length_cons] at hlong
  omega

section FlatMap

variable {α β : Type*} {f : α → List β} {g : α → β} {l : List α}

theorem flatMap_eq_map (h : ∀ a ∈ l, f a = [g a]) : l.flatMap f = l.map g := by
  induction l with
  | nil => rfl
  | cons a l ih =>
    obtain ⟨hhead, htail⟩ := List.forall_mem_cons.mp h
    rw [List.flatMap_cons, hhead, List.map_cons, List.singleton_append, ih htail]

theorem length_flatMap_le (h : ∀ a ∈ l, (f a).length ≤ 1) : (l.flatMap f).length ≤ l.length := by
  induction l with
  | nil => exact Nat.le_refl _
  | cons a l ih =>
    obtain ⟨hhead, htail⟩ := List.forall_mem_cons.mp h
    have hrest := ih htail
    rw [List.flatMap_cons, List.length_append, List.length_cons]
    omega

theorem le_length_flatMap (h : ∀ a ∈ l, 1 ≤ (f a).length) : l.length ≤ (l.flatMap f).length := by
  induction l with
  | nil => exact Nat.le_refl _
  | cons a l ih =>
    obtain ⟨hhead, htail⟩ := List.forall_mem_cons.mp h
    have hrest := ih htail
    rw [List.flatMap_cons, List.length_append, List.length_cons]
    omega

theorem flatMap_eq_map_iff_of_le (h : ∀ a ∈ l, (f a).length ≤ 1) :
    l.flatMap f = l.map g ↔ ∀ a ∈ l, f a = [g a] := by
  refine ⟨fun heq => ?_, flatMap_eq_map⟩
  induction l with
  | nil => exact fun _ hno => absurd hno List.not_mem_nil
  | cons a l ih =>
    obtain ⟨hhead, htail⟩ := List.forall_mem_cons.mp h
    rw [List.flatMap_cons, List.map_cons] at heq
    cases hgiven : f a with
    | nil =>
      rw [hgiven, List.nil_append] at heq
      have hlength := length_flatMap_le htail
      rw [heq, List.length_cons, List.length_map] at hlength
      omega
    | cons b more =>
      obtain rfl : more = [] := by
        rw [hgiven, List.length_cons] at hhead
        exact List.length_eq_zero_iff.mp (by omega)
      rw [hgiven, List.singleton_append] at heq
      obtain ⟨rfl, hrest⟩ := List.cons.inj heq
      exact List.forall_mem_cons.mpr ⟨hgiven, ih htail hrest⟩

theorem flatMap_eq_map_iff_of_ge (h : ∀ a ∈ l, 1 ≤ (f a).length) :
    l.flatMap f = l.map g ↔ ∀ a ∈ l, f a = [g a] := by
  refine ⟨fun heq => ?_, flatMap_eq_map⟩
  induction l with
  | nil => exact fun _ hno => absurd hno List.not_mem_nil
  | cons a l ih =>
    obtain ⟨hhead, htail⟩ := List.forall_mem_cons.mp h
    obtain ⟨b, more, hgiven⟩ := List.exists_cons_of_length_pos hhead
    rw [List.flatMap_cons, List.map_cons, hgiven, List.cons_append] at heq
    obtain ⟨rfl, hrest⟩ := List.cons.inj heq
    have hlength := le_length_flatMap htail
    have htotal := congrArg List.length hrest
    rw [List.length_append, List.length_map] at htotal
    obtain rfl : more = [] := List.length_eq_zero_iff.mp (by omega)
    exact List.forall_mem_cons.mpr ⟨hgiven, ih htail hrest⟩

end FlatMap

theorem parseStatusV2_iff (headers : List Header) (records : List StatusRecord) :
    (parseStatusV2 (statusOutput headers records)).entries = records.map StatusRecord.entry ↔
      ∀ r ∈ records, ¬"\n# ".toList <:+: r.path.1 := by
  have hnul : ∀ text ∈ headers.map (·.1) ++ records.map StatusRecord.text, '\x00' ∉ text := by
    intro text htext
    obtain htext | htext := List.mem_append.mp htext
    · obtain ⟨header, -, rfl⟩ := List.mem_map.mp htext
      exact header.2.2.2
    · obtain ⟨r, -, rfl⟩ := List.mem_map.mp htext
      exact r.nul_not_mem_text
  have hfull : ∀ text ∈ headers.map (·.1) ++ records.map StatusRecord.text, text ≠ [] := by
    intro text htext hno
    obtain htext | htext := List.mem_append.mp htext
    · obtain ⟨header, -, rfl⟩ := List.mem_map.mp htext
      have hheader := header.2.1
      rw [hno] at hheader
      cases hheader
    · obtain ⟨r, -, rfl⟩ := List.mem_map.mp htext
      exact r.path.2.1 (List.append_eq_nil_iff.mp hno).2
  have hsplit := splitOn_terminated hnul []
  rw [List.append_nil, List.splitOn_nil] at hsplit
  have hkept : (headers.map (·.1) ++ records.map StatusRecord.text).filter (fun text => decide (text ≠ [])) =
      headers.map (·.1) ++ records.map StatusRecord.text :=
    List.filter_eq_self.mpr fun text htext => decide_eq_true (hfull text htext)
  have hheader : ∀ header : Header, added header.1 = [] := by
    intro header
    have hcut : ¬(cut "\n# ".toList header.1).isSome = true := by
      rw [cut_isSome_iff]
      exact fun hno => header.2.2.1 (hno.subset (by decide))
    have hlast : [header.1].getLastD [] = header.1 := rfl
    have his : isHeader header.1 = true := header.2.1
    simp only [added, if_neg hcut, hlast, his, if_true]
  have hheaders : (headers.map (·.1)).flatMap added = [] := by
    rw [List.flatMap_map, List.flatMap_eq_nil_iff]
    exact fun header _ => hheader header
  rw [statusOutput, statusText, hsplit, List.filter_append, hkept, entries_parseStatusV2, List.flatMap_append,
    List.flatMap_append, hheaders, List.nil_append, List.flatMap_map]
  have hlast : (([[]] : List Text).filter fun text => decide (text ≠ [])).flatMap added = [] := rfl
  rw [hlast, List.append_nil, flatMap_eq_map_iff_of_le]
  · exact forall₂_congr fun r _ => ⟨fun hadded hmark => r.added_marked hmark hadded, r.added_text⟩
  · intro r _
    simp only [added]
    split_ifs
    · exact Nat.zero_le _
    · cases readEntry _ with
      | none => exact Nat.zero_le _
      | some e => exact Nat.le_refl _
    · exact Nat.zero_le _
    · cases readEntry _ with
      | none => exact Nat.zero_le _
      | some e => exact Nat.le_refl _

end Sightr.Git
