import Sightr.Journal.Lines

/-!
# Cursor's agent transcripts

`parseCursorTranscript` of `bridge/journal/cursor.ts`. A row without an id of its own is named by the hash of
its text and by how often the parse has met that hash.
-/

namespace Sightr

open JsText

/-! ### Rows -/

inductive CursorBlock
  | text (text : List Char)
  | thinking (thinking : List Char)
  | reasoning (text : List Char)
  /-- A call, with the one-line summary of its input. -/
  | toolUse (name summary : String)
  | other
  deriving DecidableEq

inductive CursorContent
  | string (text : List Char)
  | blocks (blocks : List CursorBlock)
  | other
  deriving DecidableEq

structure CursorRow where
  role : Option String := none
  /-- The content of `message`; none when `message` is no object. -/
  message : Option CursorContent := none
  id : Option String := none
  deriving DecidableEq

variable (row : CursorRow)

def CursorRow.ownId : Option String := row.id.filter (· ≠ "")

/-! ### Texts -/

/-- The text without `<timestamp>…</timestamp>` and the white space after, over at most `fuel` steps. -/
private def dropTimestampsFrom : Nat → List Char → List Char
  | 0, s => s
  | fuel + 1, s =>
    match cut "<timestamp>".toList s with
    | none => s
    | some (before, rest) =>
      match cut "</timestamp>".toList rest with
      | none => s
      | some (_, rest) => before ++ dropTimestampsFrom fuel (trimStart rest)

/-- The text without `<user_query>` and `</user_query>`, over at most `fuel` steps. -/
private def dropQueryTagsFrom : Nat → List Char → List Char
  | 0, s => s
  | _ + 1, [] => []
  | fuel + 1, c :: s =>
    if startsWith "<user_query>".toList (c :: s) then dropQueryTagsFrom fuel (s.drop 11)
    else if startsWith "</user_query>".toList (c :: s) then dropQueryTagsFrom fuel (s.drop 12)
    else c :: dropQueryTagsFrom fuel s

def displayUserText (raw : List Char) : List Char :=
  match (inner "user_query" raw).filter (!·.isEmpty) with
  | some query => query
  | none =>
    let untimed := dropTimestampsFrom raw.length raw
    let stripped := trim (dropQueryTagsFrom untimed.length untimed)
    if stripped.isEmpty then trim raw else stripped

/-! ### The parser -/

private def shownText (user : Bool) (text : List Char) : List TranscriptPart :=
  let shown := if user then displayUserText text else stripAnsi text
  if (trim shown).isEmpty then [] else [.text (String.ofList shown) true]

def cursorBlockParts (user : Bool) : CursorBlock → List TranscriptPart
  | .text text => shownText user text
  | .thinking text | .reasoning text =>
    if (trim text).isEmpty then [] else [.thinking (String.ofList (stripAnsi text))]
  | .toolUse name summary => [.tool name summary]
  | .other => []

def cursorParts (user : Bool) : CursorContent → List TranscriptPart
  | .string text => shownText user text
  | .blocks blocks => blocks.flatMap (cursorBlockParts user)
  | .other => []

def cursorId (key : String) (n : Nat) : String :=
  if n = 0 then "cursor-" ++ key else "cursor-" ++ key ++ "-" ++ toString n

def cursorRowId (line : List Char) (seen : List String) : String × List String :=
  let key := textHash (codeUnits line)
  (cursorId key (seen.count key), key :: seen)

def cursorRowStep (seen : List String) (line : List Char) (row : CursorRow) :
    List String × Option TranscriptEntry :=
  if row.role ≠ some "user" ∧ row.role ≠ some "assistant" then (seen, none)
  else
    match row.message with
    | none => (seen, none)
    | some content =>
      let (uuid, seen) := match row.ownId with
        | some id => (id, seen)
        | none => cursorRowId line seen
      let user := row.role = some "user"
      let parts := cursorParts user content
      if parts.isEmpty then (seen, none)
      else (seen, some { uuid, ts := "", role := if user then .user else .assistant, parts })

variable (parse : List Char → LogLine CursorRow)

/-- The entries of a log; none when a row is `null`, which throws. -/
def parseCursorTranscript (text : List Char) : Option (List TranscriptEntry) :=
  parseLines parse cursorRowStep [] text

def Anonymous (lines : List (List Char)) (i : Nat) : Prop :=
  (rowAt parse lines i).all (fun row => row.ownId.isNone) = true

instance (lines : List (List Char)) (i : Nat) : Decidable (Anonymous parse lines i) :=
  inferInstanceAs (Decidable (_ = _))

/-- The id of the entry that row `i`, which has none of its own, gets when the log is parsed from line `a` on. -/
def cursorRowIdAt (lines : List (List Char)) (a i : Nat) : Option String :=
  if ReadsFrom parse lines a ∧ Anonymous parse lines i then entryIdAt parse cursorRowStep [] lines a i else none

/-! ### What is counted, and what gets an entry -/

/-- A message without an own id: its hash is counted. -/
def CursorRow.counts : Bool :=
  (row.role = some "user" || row.role = some "assistant") && row.message.isSome && row.ownId.isNone

/-- A message without an own id that has something to show. -/
def CursorRow.speaks : Bool :=
  row.counts && row.message.any fun content => !(cursorParts (row.role = some "user") content).isEmpty

/-- Whenever a row has something to show, no earlier row of its hash counts in a window both are read in. -/
def CursorHashesApart (lines : List (List Char)) : Prop :=
  ∀ j i, j < i → ReadsFrom parse lines j → (rowAt parse lines j).any (·.counts) = true →
    (rowAt parse lines i).any (·.speaks) = true → lineHash lines j ≠ lineHash lines i

variable {parse} {lines : List (List Char)}

private def CursorRow.gives : Bool :=
  (row.role = some "user" || row.role = some "assistant") &&
    row.message.any fun content => !(cursorParts (row.role = some "user") content).isEmpty

theorem CursorRow.speaks_iff {row : CursorRow} : row.speaks = true ↔ row.gives = true ∧ row.ownId = none := by
  simp only [CursorRow.speaks, CursorRow.gives, CursorRow.counts, Bool.and_eq_true, Option.isNone_iff_eq_none]
  constructor
  · rintro ⟨⟨⟨hrole, -⟩, hown⟩, hparts⟩
    exact ⟨⟨hrole, hparts⟩, hown⟩
  · rintro ⟨⟨hrole, hparts⟩, hown⟩
    have hmessage : row.message.isSome = true := by
      obtain ⟨content, hcontent, -⟩ := (Option.any_eq_true _ _).mp hparts
      rw [hcontent]
      rfl
    exact ⟨⟨⟨hrole, hmessage⟩, hown⟩, hparts⟩

theorem seen_cursorRowStep (seen : List String) (line : List Char) (row : CursorRow) :
    (cursorRowStep seen line row).1 = (if row.counts then [textHash (codeUnits line)] else []) ++ seen := by
  by_cases hrole : row.role ≠ some "user" ∧ row.role ≠ some "assistant"
  · simp [cursorRowStep, CursorRow.counts, hrole]
  · have hsome : (decide (row.role = some "user") || decide (row.role = some "assistant")) = true := by
      simpa [imp_iff_not_or] using hrole
    rw [cursorRowStep, if_neg hrole]
    cases hmessage : row.message with
    | none => simp [CursorRow.counts, hmessage]
    | some content =>
      cases hown : row.ownId with
      | none =>
        simp only [CursorRow.counts, hsome, hmessage, hown, cursorRowId]
        split <;> rfl
      | some id =>
        simp only [CursorRow.counts, hsome, hmessage, hown]
        split <;> rfl

theorem isSome_cursorRowStep {seen : List String} {line : List Char} {row : CursorRow} :
    (cursorRowStep seen line row).2.isSome ↔ row.gives = true := by
  by_cases hrole : row.role ≠ some "user" ∧ row.role ≠ some "assistant"
  · simp [cursorRowStep, CursorRow.gives, hrole]
  · have hsome : (decide (row.role = some "user") || decide (row.role = some "assistant")) = true := by
      simpa [imp_iff_not_or] using hrole
    rw [cursorRowStep, if_neg hrole, CursorRow.gives, hsome, Bool.true_and]
    cases hmessage : row.message with
    | none => simp
    | some content =>
      by_cases hparts : (cursorParts (row.role = some "user") content).isEmpty = true
      · simp [hparts]
      · simp [hparts]

theorem uuid_cursorRowStep {seen : List String} {line : List Char} {row : CursorRow} {e : TranscriptEntry}
    (hown : row.ownId = none) (h : (cursorRowStep seen line row).2 = some e) :
    e.uuid = cursorId (textHash (codeUnits line)) (seen.count (textHash (codeUnits line))) := by
  simp only [cursorRowStep, hown, cursorRowId] at h
  repeat' split at h
  all_goals cases h
  all_goals rfl

theorem isSome_cursorEntryAt {a i : Nat} :
    (entryIdAt parse cursorRowStep [] lines a i).isSome ↔ a ≤ i ∧ (rowAt parse lines i).any (·.gives) = true := by
  rw [isSome_entryIdAt]
  simp only [isSome_cursorRowStep, Option.any_eq_true, rowAt_eq_some]
  constructor
  · rintro ⟨hai, line, row, hline, hrow, hgives⟩
    exact ⟨hai, row, ⟨line, hline, hrow⟩, hgives⟩
  · rintro ⟨hai, row, ⟨line, hline, hrow⟩, hgives⟩
    exact ⟨hai, line, row, hline, hrow, hgives⟩

theorem isSome_cursorRowIdAt {a i : Nat} : (cursorRowIdAt parse lines a i).isSome ↔
      ReadsFrom parse lines a ∧ a ≤ i ∧ (rowAt parse lines i).any (·.speaks) = true := by
  have hspeaks : (rowAt parse lines i).any (·.speaks) = true ↔
      Anonymous parse lines i ∧ (rowAt parse lines i).any (·.gives) = true := by
    cases hrow : rowAt parse lines i with
    | none => simp
    | some row => simp [Anonymous, hrow, CursorRow.speaks_iff, and_comm]
  rw [hspeaks, cursorRowIdAt]
  by_cases h : ReadsFrom parse lines a ∧ Anonymous parse lines i
  · rw [if_pos h, isSome_cursorEntryAt]
    exact ⟨fun ⟨hai, hgives⟩ => ⟨h.1, hai, h.2, hgives⟩, fun ⟨_, hai, _, hgives⟩ => ⟨hai, hgives⟩⟩
  · rw [if_neg h]
    exact ⟨fun hnone => (by cases hnone), fun ⟨hreads, _, hown, _⟩ => absurd ⟨hreads, hown⟩ h⟩

theorem cursorId_zero (key : String) : cursorId key 0 = "cursor-" ++ key := rfl

theorem cursorId_succ_ne (key : String) (n : Nat) : cursorId key (n + 1) ≠ cursorId key 0 := by
  intro h
  have hlength := congrArg String.length h
  simp only [cursorId, if_neg (Nat.succ_ne_zero n), if_pos, String.length_append] at hlength
  have hdash : "-".length = 1 := rfl
  omega

/-- The ids Cursor's rows get from their hashes are stable exactly when the hashes are apart. -/
theorem stable_cursorRowIdAt (parse : List Char → LogLine CursorRow) (lines : List (List Char)) :
    Windows.Stable (cursorRowIdAt parse lines) ↔ CursorHashesApart parse lines := by
  have hstable := stable_entryIds parse lines cursorRowStep []
    (fun a i => ReadsFrom parse lines a ∧ Anonymous parse lines i) id (fun line _ => textHash (codeUnits line))
    (fun _ _ row => row.counts) cursorId (fun a b _ hab h => ⟨h.1.later hab, h.2⟩) rfl
    (fun s line row => seen_cursorRowStep s line row)
    (fun s a i line row e hnamed hline hrow he => by
      have hown : row.ownId = none := by
        simpa [Anonymous, rowAt_eq_some.mpr ⟨line, hline, hrow⟩] using hnamed.2
      exact uuid_cursorRowStep hown he)
    (fun a b i hab hbi h => isSome_cursorEntryAt.mpr ⟨hbi, (isSome_cursorEntryAt.mp h).2⟩)
    (fun _ _ _ _ _ _ _ _ _ h => h)
    (fun k k' h => by simpa [cursorId_zero] using h) cursorId_succ_ne
  have hdraws (j : Nat) : (∃ line row, lines[j]? = some line ∧ rowOf parse line = some row ∧ row.counts = true) ↔
      (rowAt parse lines j).any (·.counts) = true := by
    simp only [Option.any_eq_true, rowAt_eq_some]
    constructor
    · rintro ⟨line, row, hline, hrow, hcounts⟩
      exact ⟨row, ⟨line, hline, hrow⟩, hcounts⟩
    · rintro ⟨row, ⟨line, hline, hrow⟩, hcounts⟩
      exact ⟨line, row, hline, hrow, hcounts⟩
  have hany {i : Nat} {p : CursorRow → Bool} (h : (rowAt parse lines i).any p = true) :
      (rowAt parse lines i).isSome := by
    obtain ⟨row, hrow, -⟩ := (Option.any_eq_true _ _).mp h
    rw [hrow]
    rfl
  have hcounts {i : Nat} (h : (rowAt parse lines i).any (·.speaks) = true) :
      (rowAt parse lines i).any (·.counts) = true := by
    obtain ⟨row, hrow, hspeaks⟩ := (Option.any_eq_true _ _).mp h
    refine (Option.any_eq_true _ _).mpr ⟨row, hrow, ?_⟩
    simp only [CursorRow.speaks, Bool.and_eq_true] at hspeaks
    exact hspeaks.1
  have hshows (a i : Nat) : (if ReadsFrom parse lines a ∧ Anonymous parse lines i then
      entryIdAt parse cursorRowStep [] lines a i else none).isSome ↔
      ReadsFrom parse lines a ∧ a ≤ i ∧ (rowAt parse lines i).any (·.speaks) = true := isSome_cursorRowIdAt
  refine hstable.trans ?_
  simp only [hshows, hdraws]
  constructor
  · intro h j i hji hreads hj hi hhash
    rw [← keyAt_textHash (hany hj), ← keyAt_textHash (hany hi)] at hhash
    exact (h j i hji hhash).2 ⟨hj, hreads, Nat.le_of_lt hji, hi⟩
  · intro h j i hji hkeys
    constructor
    · rintro ⟨⟨hreads, -, hj⟩, -, -, hi⟩
      rw [keyAt_textHash (hany hj), keyAt_textHash (hany hi)] at hkeys
      exact h j i hji hreads (hcounts hj) hi hkeys
    · rintro ⟨hj, hreads, -, hi⟩
      rw [keyAt_textHash (hany hj), keyAt_textHash (hany hi)] at hkeys
      exact h j i hji hreads hj hi hkeys

end Sightr
