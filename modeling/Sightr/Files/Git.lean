import Sightr.Files.Names

/-!
# The Git tab

`bridge/workdir-git.ts`: the changes of a worktree, of one commit and of a branch's range, listed without the paths
that the refusal list hides, and then diffed by one call of `git` that names the listed paths. `git` is a function
of its arguments; the folder, its worktree's root and the commits of the history are left out.
-/

namespace Sightr.Files

open JsText

def GIT_DIFF_CAP_BYTES : Nat := 256 * 1024
def MAX_STATUS_ENTRIES : Nat := 500
def MAX_DIFF_PATHS : Nat := 200
def MAX_PATHSPEC_BYTES : Nat := 8000

/-! ### What `git` answers -/

structure GitRun where
  code : Int := 0
  stdout : List Char := []
  timedOut : Bool := false
  failed : Bool := false

/-- `git` in one worktree, as a function of its arguments. -/
abbrev GitRunner := List (List Char) → GitRun

structure StatusEntry where
  path : PathText
  x : Option Char
  y : Option Char
  tracked : Bool
  deriving DecidableEq

structure ParsedStatus where
  branch : Option (List Char) := none
  detached : Bool := false
  noCommits : Bool := false
  upstream : Option (List Char) := none
  counts : Option (Nat × Nat) := none
  entries : List StatusEntry := []
  deriving DecidableEq

def after? (marker s : List Char) : Option (List Char) :=
  if startsWith marker s then some (s.drop marker.length) else none

variable (s : List Char)

/-- The number at the start of the text, and the text after it. -/
def readNumber : Option (Nat × List Char) :=
  let digits := s.takeWhile Char.isDigit
  if digits.isEmpty then none
  else some (Nat.ofDigits 10 (digits.reverse.map fun c => c.toNat - '0'.toNat), s.dropWhile Char.isDigit)

def readCounts : Option (Nat × Nat) := do
  let (ahead, rest) ← readNumber (← after? ['+'] s)
  let (behind, rest) ← readNumber (← after? [' ', '-'] rest)
  if rest.isEmpty then some (ahead, behind) else none

def isHeader (line : List Char) : Bool := startsWith "# ".toList line

def header (st : ParsedStatus) (line : List Char) : ParsedStatus :=
  match after? "# branch.head ".toList line with
  | some v => if v = "(detached)".toList then { st with detached := true } else { st with branch := some v }
  | none =>
    if line = "# branch.oid (initial)".toList then { st with noCommits := true }
    else match after? "# branch.upstream ".toList line with
      | some v => { st with upstream := some v }
      | none => match (after? "# branch.ab ".toList line).bind readCounts with
        | some counts => { st with counts := some counts }
        | none => st

def joinBlank (words : List (List Char)) : List Char := List.intercalate [' '] words

/-- A changed, an unmerged or an untracked path; any other record is no entry. -/
def readEntry (r : List Char) : Option StatusEntry :=
  let f := r.splitOn ' '
  let xy := f.getD 1 []
  if f.head? = some ['1'] ∧ 9 ≤ f.length then
    some { path := joinBlank (f.drop 8), x := xy[0]?, y := xy[1]?, tracked := true }
  else if f.head? = some ['u'] ∧ 11 ≤ f.length then
    some { path := joinBlank (f.drop 10), x := xy[0]?, y := xy[1]?, tracked := true }
  else if f.head? = some ['?'] ∧ 2 ≤ f.length then
    some { path := joinBlank (f.drop 1), x := some '?', y := some '?', tracked := false }
  else none

def readRecord (st : ParsedStatus) (original : List Char) : ParsedStatus :=
  -- `git` puts its headers, ended by line feeds, before the first record.
  let lines := if (cut "\n# ".toList original).isSome then original.splitOn '\n' else [original]
  let st := lines.dropLast.foldl header st
  let r := lines.getLastD []
  if isHeader r then header st r else { st with entries := st.entries ++ (readEntry r).toList }

def parseStatusV2 (records : List (List Char)) : ParsedStatus := records.foldl readRecord {}

structure FileStat where
  path : PathText
  added : Nat
  removed : Nat
  binary : Bool
  deriving DecidableEq

/-- A count of a `--numstat` record; `none` stands for a binary file's hyphen. -/
def readCount : Option (Option Nat × List Char) :=
  match s with
  | '-' :: rest => some (none, rest)
  | _ => (readNumber s).map fun (n, rest) => (some n, rest)

def parseNumstatRecord (record : List Char) : Option FileStat := do
  let (added, rest) ← readCount (record.dropWhile (· = '\n'))
  let (removed, rest) ← readCount (← after? ['\t'] rest)
  let path ← after? ['\t'] rest
  if path.isEmpty then none
  else match added, removed with
    | some added, some removed => some { path, added, removed, binary := false }
    | _, _ => some { path, added := 0, removed := 0, binary := true }

def isHex (c : Char) : Bool := c.isDigit || ('a' ≤ c && c ≤ 'f')

def isSha : Bool := 7 ≤ s.length && s.length ≤ 40 && s.all isHex

def isFullSha : Bool := (s.length = 40 || s.length = 64) && s.all isHex

structure RawCommit where
  sha : List Char
  stats : List FileStat
  deriving DecidableEq

/-- The commits of `git log -z --numstat` with a record separator before each. -/
def parseLogZ (stdout : List Char) : List RawCommit :=
  ((stdout.splitOn '\x1e').drop 1).filterMap fun chunk =>
    let parts := chunk.splitOn '\x00'
    let sha := ((parts.headD []).splitOn '\x1f').headD []
    if isFullSha sha then some { sha, stats := parts.tail.filterMap parseNumstatRecord } else none

/-! ### The call that diffs -/

/-- The start of a pathspec that is read literally, from the worktree's root. -/
def literalTop : List Char := ":(literal,top)".toList

/-- `git`'s rule for such a pathspec: it selects its path, and every path below it. -/
def selects (spec : List Char) (path : PathText) : Prop :=
  ∃ p, spec = literalTop ++ p ∧ (path = p ∨ (p ++ ['/']) <+: path)

/-- The loop of `literalSpecs` after `count` pathspecs of `size` bytes: those it adds, and whether it stopped. -/
def literalSpecsFrom : Nat → Nat → List PathText → List (List Char) × Bool
  | _, _, [] => ([], false)
  | count, size, path :: rest =>
    let p := literalTop ++ path
    let n := utf8Bytes p + if count = 0 then 0 else 1
    if MAX_DIFF_PATHS ≤ count ∨ MAX_PATHSPEC_BYTES < size + n then ([], true)
    else (p :: (literalSpecsFrom (count + 1) (size + n) rest).1, (literalSpecsFrom (count + 1) (size + n) rest).2)

/-- Pathspecs for the paths, capped by number and bytes, and whether some were left out. -/
def literalSpecs (paths : List PathText) : List (List Char) × Bool := literalSpecsFrom 0 0 paths

/-- The longest start of the text that has at most so many bytes. -/
def takeBytes : Nat → List Char → List Char
  | n, c :: s => if c.utf8Size ≤ n then c :: takeBytes (n - c.utf8Size) s else []
  | _, [] => []

def cutDiff (text : List Char) : List Char × Bool :=
  if utf8Bytes text ≤ GIT_DIFF_CAP_BYTES then (text, false)
  else (((takeBytes GIT_DIFF_CAP_BYTES text).reverse.dropWhile (· ≠ '\n')).reverse, true)

/-- The answer to a request for a commit's or a range's diff. -/
structure Patch where
  files : List FileStat
  hidden : Nat
  filesTruncated : Bool
  diff : List Char
  diffTruncated : Bool
  /-- The pathspecs of the call that diffed; with none there was no call. -/
  specs : List (List Char)

variable (windows : Bool)

/-- What the client may see, and how many the refusal list hides. -/
def visibleStats (stats : List FileStat) : List FileStat × Nat :=
  (stats.filter (!isHiddenPath windows ·.path), stats.countP (isHiddenPath windows ·.path))

def patchFor (invoke : GitRunner) (raw : List FileStat) (countsOk : Bool)
    (patchArgs : List (List Char)) : Patch :=
  let all := (visibleStats windows raw).1
  let files := all.take MAX_STATUS_ENTRIES
  let filesTruncated := files.length < all.length
  let specs := (literalSpecs (files.map (·.path))).1
  let truncated := (literalSpecs (files.map (·.path))).2 || filesTruncated || !countsOk
  let d := invoke (patchArgs ++ "--".toList :: specs)
  let answer : Patch := {
    files, hidden := (visibleStats windows raw).2, filesTruncated, diff := [], diffTruncated := truncated, specs }
  if specs.isEmpty then answer
  else { answer with
    diff := (cutDiff d.stdout).1
    diffTruncated := truncated || d.timedOut || d.code ≠ 0 || (cutDiff d.stdout).2 }

def DIFF_FLAGS : List (List Char) := ["--no-ext-diff", "--no-textconv", "--no-renames", "--no-color"].map
    String.toList

/-! ### The worktree -/

inductive Unavailable
  | gitUnavailable
  | timeout
  | badCommit
  | noBase
  deriving DecidableEq

structure FolderGit where
  branch : Option (List Char)
  detached : Bool
  noCommits : Bool
  clean : Bool
  entries : List StatusEntry
  hidden : Nat
  statusTruncated : Bool
  diff : List Char
  diffTruncated : Bool
  /-- The pathspecs of the call that diffed; with none there was no call. -/
  specs : List (List Char)

def statusArgs : List (List Char) :=
  ["status", "--porcelain=v2", "--branch", "-z", "--no-renames", "--untracked-files=normal"].map String.toList

def statusOf (invoke : GitRunner) (args : List (List Char)) : Except Unavailable ParsedStatus :=
  let status := invoke args
  if status.failed then .error .gitUnavailable
  else if status.timedOut then .error .timeout
  else .ok (parseStatusV2 ((status.stdout.splitOn '\x00').filter (!·.isEmpty)))

def folderOf (invoke : GitRunner) (parsed : ParsedStatus) : FolderGit :=
  let shown := parsed.entries.filter (!isHiddenPath windows ·.path)
  let hidden := parsed.entries.countP (isHiddenPath windows ·.path)
  let visible := shown.take MAX_STATUS_ENTRIES
  let statusTruncated := visible.length < shown.length
  let paths := literalSpecs ((visible.filter (·.tracked)).map (·.path))
  let specs := if parsed.noCommits then [] else paths.1
  let d := invoke ("diff".toList :: DIFF_FLAGS ++ ["-U3", "HEAD", "--"].map String.toList ++ specs)
  let answer : FolderGit := {
    branch := parsed.branch, detached := parsed.detached, noCommits := parsed.noCommits
    clean := visible.isEmpty && hidden = 0, entries := visible, hidden, statusTruncated
    diff := [], diffTruncated := statusTruncated || paths.2, specs }
  if specs.isEmpty then answer
  else { answer with
    diff := (cutDiff d.stdout).1
    diffTruncated := answer.diffTruncated || d.timedOut || d.code ≠ 0 || (cutDiff d.stdout).2 }

def inspect (invoke : GitRunner) : Except Unavailable FolderGit :=
  (statusOf invoke statusArgs).map (folderOf windows invoke)

/-! ### A commit, and a branch's range -/

inductive DiffScope
  | commit (sha : List Char)
  | branch
  deriving DecidableEq

/-- What a request diffs, after its counts: the files, whether the counts are whole, and the call without paths. -/
structure Counted where
  raw : List FileStat
  countsOk : Bool
  patchArgs : List (List Char)

/-- A branch's or a remote branch's full name without its namespace; `none` for any other reference. -/
def refName? (full : List Char) : Option (List Char) := do
  let name ← (after? "refs/heads/".toList full).orElse fun _ => after? "refs/remotes/".toList full
  if name.isEmpty || name.any isSpace then none else some name

structure ResolvedBase where
  ref : List Char
  name : List Char
  upstream : Bool
  deriving DecidableEq

def BASE_FALLBACKS : List (List Char) :=
  ["refs/remotes/origin/HEAD", "refs/heads/main", "refs/heads/master"].map String.toList

/-- Where a range starts: the upstream, if `git` knows it, or a fallback other than the branch itself. -/
def resolveBase (invoke : GitRunner) (st : ParsedStatus) : Option ResolvedBase :=
  match st.upstream, st.counts with
  | some (c :: name), some _ => some { ref := "@{upstream}".toList, name := c :: name, upstream := true }
  | _, _ => BASE_FALLBACKS.findSome? fun ref =>
    let r := invoke (["rev-parse", "--verify", "--quiet", "--symbolic-full-name"].map String.toList ++ [ref])
    let full := if r.code = 0 ∧ r.timedOut = false then trim r.stdout else []
    match refName? full with
    | none => none
    | some name =>
      if st.branch.any fun b => !b.isEmpty && full = "refs/heads/".toList ++ b then none
      else some { ref := full, name, upstream := false }

def commitChanges (invoke : GitRunner) (sha : List Char) : Except Unavailable Counted :=
  if !isSha sha then .error .badCommit
  else
    let v := invoke (["rev-parse", "--verify", "--quiet"].map String.toList ++ [sha ++ "^{commit}".toList])
    if v.failed then .error .gitUnavailable
    else if v.timedOut then .error .timeout
    else
      let full := if v.code = 0 then trim v.stdout else []
      if !isFullSha full then .error .badCommit
      else
        let counts := invoke (["log", "-n", "1", "--no-show-signature", "--diff-merges=first-parent"].map
          String.toList ++
          DIFF_FLAGS ++ ["--numstat", "-z", "--format=%x1e%H%x1f%h%x1f%ct%x1f%P%x1f%an%x1f%s"].map String.toList ++
          [full, "--".toList])
        if counts.timedOut then .error .timeout
        else match if counts.code = 0 then (parseLogZ counts.stdout).head? else none with
          | none => .error .badCommit
          | some raw =>
            if raw.sha ≠ full then .error .badCommit
            else .ok {
              raw := raw.stats, countsOk := true
              patchArgs := ["show", "--format=", "--no-show-signature", "--diff-merges=first-parent"].map
                String.toList ++
                DIFF_FLAGS ++ ["-U3".toList, full] }

def branchChanges (invoke : GitRunner) : Except Unavailable Counted := do
  let st ← statusOf invoke
    (["status", "--porcelain=v2", "--branch", "-z", "--untracked-files=no"].map String.toList)
  if st.noCommits then .error .noBase
  else match resolveBase invoke st with
    | none => .error .noBase
    | some base =>
      let range := base.ref ++ "...HEAD".toList
      let counts := invoke ("diff".toList :: DIFF_FLAGS ++ ["--numstat", "-z"].map String.toList ++
        [range, "--".toList])
      if counts.timedOut then .error .timeout
      else .ok {
        raw := if counts.code = 0 then (counts.stdout.splitOn '\x00').filterMap parseNumstatRecord else []
        countsOk := counts.code = 0
        patchArgs := "diff".toList :: DIFF_FLAGS ++ ["-U3".toList, range] }

def changesOf (invoke : GitRunner) : DiffScope → Except Unavailable Counted
  | .commit sha => commitChanges invoke sha
  | .branch => branchChanges invoke

def diff (invoke : GitRunner) (scope : DiffScope) : Except Unavailable Patch :=
  (changesOf invoke scope).map fun c => patchFor windows invoke c.raw c.countsOk c.patchArgs

/-! ### The paths the call names -/

/-- The bytes that the pathspecs of the paths add after `count` others, with the blank before each but the first. -/
private def specsSize : Nat → List PathText → Nat
  | _, [] => 0
  | count, path :: rest =>
    (utf8Bytes (literalTop ++ path) + if count = 0 then 0 else 1) + specsSize (count + 1) rest

theorem specsSize_succ (count : Nat) (paths : List PathText) :
    specsSize (count + 1) paths = (paths.map fun path => utf8Bytes (literalTop ++ path) + 1).sum := by
  induction paths generalizing count with
  | nil => rfl
  | cons path rest ih => simp [specsSize, ih]

theorem utf8Bytes_joinBlank_cons (word : List Char) (words : List (List Char)) :
    utf8Bytes (joinBlank (word :: words)) = utf8Bytes word + (words.map fun w => utf8Bytes w + 1).sum := by
  induction words generalizing word with
  | nil => simp [joinBlank]
  | cons next words ih =>
    have hjoin : joinBlank (word :: next :: words) = word ++ ' ' :: joinBlank (next :: words) := by
      simp [joinBlank, List.intercalate_cons_cons]
    have hblank : utf8Bytes (' ' :: joinBlank (next :: words)) = 1 + utf8Bytes (joinBlank (next :: words)) := rfl
    rw [hjoin, utf8Bytes_append, hblank, ih]
    simp only [List.map_cons, List.sum_cons]
    omega

theorem specsSize_zero (paths : List PathText) :
    specsSize 0 paths = utf8Bytes (joinBlank (paths.map (literalTop ++ ·))) := by
  cases paths with
  | nil => rfl
  | cons path rest =>
    rw [List.map_cons, utf8Bytes_joinBlank_cons, specsSize, specsSize_succ, if_pos rfl, Nat.add_zero, List.map_map,
      Function.comp_def]

theorem mem_literalSpecsFrom {spec : List Char} (paths : List PathText) (count size : Nat) :
    spec ∈ (literalSpecsFrom count size paths).1 ↔
      ∃ before path after, paths = before ++ path :: after ∧ spec = literalTop ++ path ∧
        count + before.length < MAX_DIFF_PATHS ∧ size + specsSize count (before ++ [path]) ≤ MAX_PATHSPEC_BYTES := by
  induction paths generalizing count size with
  | nil => simp [literalSpecsFrom]
  | cons head rest ih =>
    obtain ⟨n, hn⟩ : ∃ n, n = utf8Bytes (literalTop ++ head) + if count = 0 then 0 else 1 := ⟨_, rfl⟩
    simp only [literalSpecsFrom, ← hn]
    by_cases hstop : MAX_DIFF_PATHS ≤ count ∨ MAX_PATHSPEC_BYTES < size + n
    · rw [if_pos hstop]
      refine iff_of_false (List.not_mem_nil) ?_
      rintro ⟨before, path, after, hsplit, -, hcount, hsize⟩
      cases before with
      | nil =>
        obtain ⟨rfl, rfl⟩ := List.cons.inj hsplit
        simp only [List.nil_append, List.length_nil, specsSize, ← hn] at hcount hsize
        omega
      | cons first before =>
        obtain ⟨rfl, rfl⟩ := List.cons.inj hsplit
        simp only [List.cons_append, List.length_cons, specsSize, ← hn] at hcount hsize
        omega
    · rw [if_neg hstop]
      simp only [List.mem_cons, ih]
      constructor
      · rintro (rfl | ⟨before, path, after, rfl, rfl, hcount, hsize⟩)
        · refine ⟨[], head, rest, rfl, rfl, ?_, ?_⟩
          · simp only [List.length_nil]
            omega
          · simp only [List.nil_append, specsSize, ← hn]
            omega
        · refine ⟨head :: before, path, after, rfl, rfl, ?_, ?_⟩
          · simp only [List.length_cons]
            omega
          · simp only [List.cons_append, specsSize, ← hn]
            omega
      · rintro ⟨before, path, after, hsplit, rfl, hcount, hsize⟩
        cases before with
        | nil =>
          obtain ⟨rfl, rfl⟩ := List.cons.inj hsplit
          exact .inl rfl
        | cons first before =>
          obtain ⟨rfl, rfl⟩ := List.cons.inj hsplit
          refine .inr ⟨before, path, after, rfl, rfl, ?_, ?_⟩
          · simp only [List.length_cons] at hcount
            omega
          · simp only [List.cons_append, specsSize, ← hn] at hsize
            omega

theorem mem_literalSpecs {spec : List Char} {paths : List PathText} : spec ∈ (literalSpecs paths).1 ↔
      ∃ before path after, paths = before ++ path :: after ∧ spec = literalTop ++ path ∧
        before.length < MAX_DIFF_PATHS ∧
        utf8Bytes (joinBlank ((before ++ [path]).map (literalTop ++ ·))) ≤ MAX_PATHSPEC_BYTES := by
  simp only [literalSpecs, mem_literalSpecsFrom, Nat.zero_add, specsSize_zero]

/-! ### What the call selects -/

theorem split_filter_take_filter {α : Type*} {p q : α → Bool} {x : α} (l : List α) (n : Nat) (R : List α → Prop) :
    (∃ before after, ((l.filter p).take n).filter q = before ++ x :: after ∧ R before) ↔
      ∃ before after, l = before ++ x :: after ∧ p x ∧ q x ∧ (before.filter p).length < n ∧
        R ((before.filter p).filter q) := by
  induction l generalizing n R with
  | nil => simp
  | cons y l ih =>
    have hcons : ∀ Q : List α → Prop, (∃ before after, y :: l = before ++ x :: after ∧ Q before) ↔
        (y = x ∧ Q []) ∨ ∃ before after, l = before ++ x :: after ∧ Q (y :: before) := by
      intro Q
      constructor
      · rintro ⟨before, after, hsplit, hQ⟩
        cases before with
        | nil => exact .inl ⟨(List.cons.inj hsplit).1, hQ⟩
        | cons first before =>
          obtain ⟨rfl, rfl⟩ := List.cons.inj hsplit
          exact .inr ⟨before, after, rfl, hQ⟩
      · rintro (⟨rfl, hQ⟩ | ⟨before, after, rfl, hQ⟩)
        · exact ⟨[], l, rfl, hQ⟩
        · exact ⟨y :: before, after, rfl, hQ⟩
    rw [hcons]
    by_cases hp : p y
    · cases n with
      | zero => simp
      | succ n =>
        by_cases hq : q y
        · simp only [List.filter_cons, hp, hq, if_true, List.take_succ_cons, List.length_cons,
            Nat.add_lt_add_iff_right]
          constructor
          · rintro ⟨before, after, hsplit, hR⟩
            cases before with
            | nil =>
              obtain ⟨rfl, -⟩ := List.cons.inj hsplit
              exact .inl ⟨rfl, hp, hq, Nat.succ_pos n, hR⟩
            | cons first before =>
              obtain ⟨rfl, hrest⟩ := List.cons.inj hsplit
              exact .inr ((ih n fun before => R (y :: before)).mp ⟨before, after, hrest, hR⟩)
          · rintro (⟨rfl, -, -, -, hR⟩ | hlater)
            · exact ⟨[], _, rfl, hR⟩
            · obtain ⟨before, after, hrest, hR⟩ := (ih n fun before => R (y :: before)).mpr hlater
              exact ⟨y :: before, after, by rw [hrest]; rfl, hR⟩
        · simp only [List.filter_cons, hp, hq, if_true, List.take_succ_cons, List.length_cons,
            Nat.add_lt_add_iff_right, ih, Bool.false_eq_true, if_false]
          refine (or_iff_right ?_).symm
          rintro ⟨rfl, -, hx, -⟩
          exact hq hx
    · simp only [List.filter_cons, hp, Bool.false_eq_true, if_false, ih]
      refine (or_iff_right ?_).symm
      rintro ⟨rfl, hx, -⟩
      exact hp hx

section Asked

variable {α : Type*} (windows : Bool) (path : α → PathText) (tracked : α → Bool)

variable (entries : List α)

/-- The entries whose paths the refusal list does not hide. -/
def visible : List α := entries.filter (fun e => !isHiddenPath windows (path e))

/-- Is the entry tracked, visible, and before every cap? -/
def Asked (e : α) : Prop :=
  ∃ before after, entries = before ++ e :: after ∧ isHiddenPath windows (path e) = false ∧ tracked e ∧
    (visible windows path before).length < MAX_STATUS_ENTRIES ∧
    ((visible windows path before).filter tracked).length < MAX_DIFF_PATHS ∧
    utf8Bytes (joinBlank (((visible windows path before).filter tracked ++ [e]).map (literalTop ++ path ·))) ≤
      MAX_PATHSPEC_BYTES

/-- No hidden changed path lies below the path of an entry that is asked for. -/
def NoneBelow (changed : List PathText) : Prop :=
  ∀ e, Asked windows path tracked entries e → ∀ p ∈ changed, isHiddenPath windows p → ¬(path e ++ ['/']) <+: p

theorem mem_specs_iff {entries : List α} {spec : List Char} :
    spec ∈ (literalSpecs ((((visible windows path entries).take MAX_STATUS_ENTRIES).filter tracked).map path)).1 ↔
      ∃ e, Asked windows path tracked entries e ∧ spec = literalTop ++ path e := by
  have hsplit := fun (e : α) => split_filter_take_filter (p := fun e => !isHiddenPath windows (path e)) (q := tracked)
    (x := e) entries MAX_STATUS_ENTRIES fun before => before.length < MAX_DIFF_PATHS ∧
      utf8Bytes (joinBlank ((before ++ [e]).map (literalTop ++ path ·))) ≤ MAX_PATHSPEC_BYTES
  simp only [Bool.not_eq_true'] at hsplit
  unfold Asked visible
  rw [mem_literalSpecs]
  constructor
  · rintro ⟨before, _, after, hpaths, rfl, hcount, hsize⟩
    obtain ⟨first, _, hentries, rfl, hrest⟩ := List.map_eq_append_iff.mp hpaths
    obtain ⟨e, last, rfl, rfl, rfl⟩ := List.map_eq_cons_iff.mp hrest
    refine ⟨e, (hsplit e).mp ⟨first, last, hentries, by simpa using hcount, ?_⟩, rfl⟩
    simpa [Function.comp_def] using hsize
  · rintro ⟨e, hasked, rfl⟩
    obtain ⟨first, last, hentries, hcount, hsize⟩ := (hsplit e).mpr hasked
    refine ⟨first.map path, path e, last.map path, by simp [hentries], rfl, by simpa using hcount, ?_⟩
    simpa [Function.comp_def] using hsize

theorem selects_none_iff (changed : List PathText) :
    (∀ spec ∈ (literalSpecs ((((visible windows path entries).take MAX_STATUS_ENTRIES).filter tracked).map path)).1,
      ∀ p ∈ changed, isHiddenPath windows p → ¬selects spec p) ↔
      NoneBelow windows path tracked entries changed := by
  constructor
  · intro h e hasked p hp hhidden hbelow
    exact h _ ((mem_specs_iff windows path tracked).mpr ⟨e, hasked, rfl⟩) p hp hhidden ⟨path e, rfl, .inr hbelow⟩
  · intro h spec hspec p hp hhidden hselects
    obtain ⟨e, hasked, rfl⟩ := (mem_specs_iff windows path tracked).mp hspec
    obtain ⟨_, hpath, rfl | hbelow⟩ := hselects
    · obtain rfl := List.append_cancel_left hpath
      obtain ⟨-, -, -, hvisible, -⟩ := hasked
      simp [hvisible] at hhidden
    · obtain rfl := List.append_cancel_left hpath
      exact h e hasked p hp hhidden hbelow

end Asked

/-- What the Git tab promises of an answer: the call selects no hidden path, no listed path is hidden, and the
hidden paths and the others are all that were parsed. -/
structure Hides (windows : Bool) (changed : List PathText) (specs : List (List Char)) (listed : List PathText)
    (hidden : Nat) (parsed : List PathText) : Prop where
  selected : ∀ spec ∈ specs, ∀ p ∈ changed, isHiddenPath windows p → ¬selects spec p
  listed : ∀ p ∈ listed, isHiddenPath windows p = false
  counted : hidden + (parsed.filter (!isHiddenPath windows ·)).length = parsed.length

variable (windows : Bool)

theorem countP_add_filter {α : Type*} (path : α → PathText) (entries : List α) :
    entries.countP (fun e => isHiddenPath windows (path e)) +
      ((entries.map path).filter (!isHiddenPath windows ·)).length = (entries.map path).length := by
  rw [List.filter_map, List.length_map, List.length_map, ← List.countP_eq_length_filter]
  have h := List.length_eq_countP_add_countP (fun e => isHiddenPath windows (path e)) (l := entries)
  simpa [Function.comp_def] using h.symm

theorem visible_of_mem_take {windows : Bool} {α : Type*} {path : α → PathText} {entries : List α} {n : Nat}
    {p : PathText} (h : p ∈ ((entries.filter (fun e => !isHiddenPath windows (path e))).take n).map path) :
    isHiddenPath windows p = false := by
  obtain ⟨e, he, rfl⟩ := List.mem_map.mp h
  simpa using (List.mem_filter.mp (List.mem_of_mem_take he)).2

@[simp] theorem specs_folderOf (invoke : GitRunner) (parsed : ParsedStatus) :
    (folderOf windows invoke parsed).specs = if parsed.noCommits then [] else
      (literalSpecs ((((visible windows StatusEntry.path parsed.entries).take MAX_STATUS_ENTRIES).filter
        (·.tracked)).map StatusEntry.path)).1 := by
  simp only [folderOf, visible, apply_ite FolderGit.specs, ite_self]

theorem listed_folderOf (invoke : GitRunner) (parsed : ParsedStatus) :
    (folderOf windows invoke parsed).entries =
        (parsed.entries.filter fun e => !isHiddenPath windows (e.path)).take MAX_STATUS_ENTRIES ∧
      (folderOf windows invoke parsed).hidden = parsed.entries.countP fun e => isHiddenPath windows (e.path) := by
  simp only [folderOf, apply_ite FolderGit.entries, apply_ite FolderGit.hidden, ite_self, and_self]

@[simp] theorem specs_patchFor (invoke : GitRunner) (raw : List FileStat) (countsOk : Bool)
    (patchArgs : List (List Char)) :
    (patchFor windows invoke raw countsOk patchArgs).specs =
      (literalSpecs (((visible windows FileStat.path raw).take MAX_STATUS_ENTRIES).map FileStat.path)).1 := by
  unfold patchFor
  dsimp only
  split <;> rfl

theorem listed_patchFor (invoke : GitRunner) (raw : List FileStat) (countsOk : Bool)
    (patchArgs : List (List Char)) :
    (patchFor windows invoke raw countsOk patchArgs).files =
        (raw.filter fun e => !isHiddenPath windows (e.path)).take MAX_STATUS_ENTRIES ∧
      (patchFor windows invoke raw countsOk patchArgs).hidden =
        raw.countP fun e => isHiddenPath windows (e.path) := by
  unfold patchFor
  dsimp only
  split <;> exact ⟨rfl, rfl⟩

theorem folderOf_hides (invoke : GitRunner) (parsed : ParsedStatus) (changed : List PathText) :
    Hides windows changed (folderOf windows invoke parsed).specs
        ((folderOf windows invoke parsed).entries.map StatusEntry.path) (folderOf windows invoke parsed).hidden
        (parsed.entries.map StatusEntry.path) ↔
      (parsed.noCommits = false →
        NoneBelow windows StatusEntry.path StatusEntry.tracked parsed.entries changed) := by
  have hselects := selects_none_iff windows StatusEntry.path StatusEntry.tracked parsed.entries changed
  obtain ⟨hentries, hhidden⟩ := listed_folderOf windows invoke parsed
  constructor
  · rintro ⟨hselected, -, -⟩ hcommits
    rw [specs_folderOf, hcommits] at hselected
    exact hselects.mp hselected
  · intro hclear
    refine ⟨?_, ?_, ?_⟩
    · rw [specs_folderOf]
      split_ifs with hcommits
      · simp
      · exact hselects.mpr (hclear (by simpa using hcommits))
    · rw [hentries]
      exact fun p => visible_of_mem_take
    · rw [hhidden]
      exact countP_add_filter windows StatusEntry.path parsed.entries

theorem patchFor_hides (invoke : GitRunner) (c : Counted) (changed : List PathText) :
    Hides windows changed (patchFor windows invoke c.raw c.countsOk c.patchArgs).specs
        ((patchFor windows invoke c.raw c.countsOk c.patchArgs).files.map FileStat.path)
        (patchFor windows invoke c.raw c.countsOk c.patchArgs).hidden (c.raw.map FileStat.path) ↔
      NoneBelow windows FileStat.path (fun _ => true) c.raw changed := by
  have hselects := selects_none_iff windows FileStat.path (fun _ => true) c.raw changed
  rw [List.filter_eq_self.mpr fun _ _ => rfl] at hselects
  obtain ⟨hfiles, hhidden⟩ := listed_patchFor windows invoke c.raw c.countsOk c.patchArgs
  constructor
  · rintro ⟨hselected, -, -⟩
    rw [specs_patchFor] at hselected
    exact hselects.mp hselected
  · intro hclear
    refine ⟨?_, ?_, ?_⟩
    · rw [specs_patchFor]
      exact hselects.mpr hclear
    · rw [hfiles]
      exact fun p => visible_of_mem_take
    · rw [hhidden]
      exact countP_add_filter windows FileStat.path c.raw

/-- Whatever `git` answers and whatever paths are changed: an answer of the Git tab selects no hidden path, lists
none and counts every parsed entry once, exactly if no hidden changed path lies below a listed path that the
call has room for. -/
theorem diffs_hide (windows : Bool) (invoke : GitRunner) (changed : List PathText) :
    (∀ parsed answer, statusOf invoke statusArgs = .ok parsed → inspect windows invoke = .ok answer →
      (Hides windows changed answer.specs (answer.entries.map StatusEntry.path) answer.hidden
          (parsed.entries.map StatusEntry.path) ↔
        (parsed.noCommits = false →
          NoneBelow windows StatusEntry.path StatusEntry.tracked parsed.entries changed))) ∧
    ∀ scope counted answer, changesOf invoke scope = .ok counted → diff windows invoke scope = .ok answer →
      (Hides windows changed answer.specs (answer.files.map FileStat.path) answer.hidden
          (counted.raw.map FileStat.path) ↔
        NoneBelow windows FileStat.path (fun _ => true) counted.raw changed) := by
  refine ⟨fun parsed answer hparsed hanswer => ?_, fun scope counted answer hcounted hanswer => ?_⟩
  · rw [inspect, hparsed] at hanswer
    obtain rfl := Except.ok.inj hanswer
    exact folderOf_hides windows invoke parsed changed
  · rw [diff, hcounted] at hanswer
    obtain rfl := Except.ok.inj hanswer
    exact patchFor_hides windows invoke counted changed

variable (records : List String)

/-- `git` in a worktree whose status has the given records, and no other answer. -/
def statusRunner : GitRunner := fun args =>
  if args = statusArgs then { stdout := records.flatMap fun r => r.toList ++ ['\x00'] } else {}

def statusRecords : ParsedStatus :=
  parseStatusV2 (((records.flatMap fun r => r.toList ++ ['\x00']).splitOn '\x00').filter (!·.isEmpty))

theorem statusOf_statusRunner :
    statusOf (statusRunner records) statusArgs = .ok (statusRecords records) := by
  simp [statusOf, statusRunner, statusRecords]

theorem inspect_statusRunner : inspect windows (statusRunner records) =
      .ok (folderOf windows (statusRunner records) (statusRecords records)) := by
  simp only [inspect, statusOf_statusRunner, Except.map]

def oneChanged : GitRunner := statusRunner ["1 .M N... 100644 100644 100644 h0 h0 src/a.ts"]

theorem diffs_hide_changed :
    ∃ parsed answer, statusOf oneChanged statusArgs = .ok parsed ∧ inspect false oneChanged = .ok answer ∧
      (Hides false ["src/a.ts".toList] answer.specs (answer.entries.map StatusEntry.path) answer.hidden
          (parsed.entries.map StatusEntry.path) ↔
        (parsed.noCommits = false →
          NoneBelow false StatusEntry.path StatusEntry.tracked parsed.entries ["src/a.ts".toList])) :=
  have hparsed := statusOf_statusRunner _
  have hanswer := inspect_statusRunner false _
  ⟨_, _, hparsed, hanswer, (diffs_hide false oneChanged ["src/a.ts".toList]).1 _ _ hparsed hanswer⟩

/-- A worktree where the file `a` gave way to the folder `a`, with a new `.env` in it. -/
def fileToFolder : GitRunner := statusRunner
  ["1 D. N... 100644 000000 000000 h0 0 a", "1 A. N... 000000 100644 100644 0 h1 a/.env"]

/-- The call names `a` and so selects the hidden `a/.env`. -/
theorem env_selected :
    ∃ answer, inspect false fileToFolder = .ok answer ∧ answer.entries.map StatusEntry.path = ["a".toList] ∧
      ∃ spec ∈ answer.specs, isHiddenPath false "a/.env".toList ∧ selects spec "a/.env".toList :=
  ⟨_, inspect_statusRunner false _, by decide, literalTop ++ "a".toList, by decide, by decide, "a".toList, rfl,
    .inr (by decide)⟩

end Sightr.Files
