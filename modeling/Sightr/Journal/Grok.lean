import Sightr.Journal.Lines

/-!
# Grok's chat history

`parseGrokTranscript` of `bridge/journal/grok.ts`. Rows carry no id: an entry is named by the hash of its
row's text and by how often the parse has met that hash. A tool result folds onto the call it answers; what it
changes there, and the questions a pending call shows, are not part of any id and are left out.
-/

namespace Sightr

open JsText

/-! ### Rows -/

/-- A row's content: a text, or blocks, some with a text. -/
inductive LogText
  | string (text : List Char)
  | blocks (texts : List (Option (List Char)))
  | other
  deriving DecidableEq

/-- A call in a row, with the one-line summary of its arguments. -/
structure GrokToolCall where
  id : Option String := none
  name : Option String := none
  summary : String := ""
  deriving DecidableEq

/-- A row, as far as the parser reads it. A field that is no string is absent. -/
structure GrokRow where
  type : Option String := none
  content : LogText := .other
  syntheticReason : Option String := none
  toolCalls : List GrokToolCall := []
  toolCallId : Option String := none
  deriving DecidableEq

def contentText : LogText → List Char
  | .string text => text
  | .blocks texts => ['\n'].intercalate ((texts.map (·.getD [])).filter (!·.isEmpty))
  | .other => []

/-- The words the operator typed in a user row; none drops the row. -/
def extractGrokUserSpeech (raw : List Char) : Option (List Char) :=
  let text := trim (stripAnsi raw)
  if text.isEmpty then none
  else
    match inner "user_query" text with
    | some words => if words.isEmpty then none else some words
    | none =>
      if ["<user_info>", "<system-reminder>", "<rules>", "<always_applied_workspace_rules"].any
          (fun opening => startsWith opening.toList text) then none
      else some text

variable (row : GrokRow)

/-- The words of a user row, unless it is a reminder. -/
def GrokRow.speech : Option (List Char) :=
  if row.syntheticReason.any (· ≠ "interjection") then none
  else extractGrokUserSpeech (contentText row.content)

def GrokRow.assistantParts : List TranscriptPart :=
  let spoken := stripAnsi (contentText row.content)
  (if (trim spoken).isEmpty then [] else [.text (String.ofList spoken) true]) ++
    row.toolCalls.map fun call => .tool (call.name.getD "tool") call.summary

def GrokRow.resultText : List Char := stripAnsi (contentText row.content)

def GrokRow.callIds : List String := (row.toolCalls.filterMap (·.id)).filter (· ≠ "")

/-! ### The parser -/

structure GrokState where
  pendingTools : List String
  seen : List String
  deriving DecidableEq

def GrokState.empty : GrokState := ⟨[], []⟩

def grokId (key : String) (n : Nat) : String := if n = 0 then "gx-" ++ key else "gx-" ++ key ++ "-" ++ toString n

def grokCursor (line : List Char) (seen : List String) : String × List String :=
  let key := textHash (codeUnits line)
  (grokId key (seen.count key), key :: seen)

def grokRowStep (s : GrokState) (line : List Char) (row : GrokRow) : GrokState × Option TranscriptEntry :=
  let (uuid, seen) := grokCursor line s.seen
  let s := { s with seen }
  if row.type = some "user" then
    (s, row.speech.map fun speech => { uuid, ts := "", role := .user, parts := [.text (String.ofList speech) true] })
  else if row.type = some "assistant" then
    let s := { s with pendingTools := row.callIds ++ s.pendingTools }
    let parts := row.assistantParts
    if parts.isEmpty then (s, none) else (s, some { uuid, ts := "", role := .assistant, parts })
  else if row.type = some "tool_result" then
    let id := row.toolCallId.getD ""
    if id ∈ s.pendingTools then ({ s with pendingTools := s.pendingTools.filter (· ≠ id) }, none)
    else if (trim row.resultText).isEmpty then (s, none)
    else (s, some { uuid, ts := "", role := .assistant, parts := [.tool "tool" ""] })
  else (s, none)

variable (parse : List Char → LogLine GrokRow)

/-- The entries of a log; none when a row is `null`, which throws. -/
def parseGrokTranscript (text : List Char) : Option (List TranscriptEntry) :=
  parseLines parse grokRowStep .empty text

/-- The id of the entry that row `i` gets when the log is parsed from line `a` on. -/
def grokIdAt (lines : List (List Char)) (a i : Nat) : Option String :=
  if ReadsFrom parse lines a then entryIdAt parse grokRowStep .empty lines a i else none

/-! ### What gets an entry -/

def GrokRow.Calls (id : String) : Prop := row.type = some "assistant" ∧ id ∈ row.callIds

def GrokRow.Answers (id : String) : Prop := row.type = some "tool_result" ∧ row.toolCallId.getD "" = id

/-- A call from line `a` on still awaits its result at line `i`. -/
def GrokAwaited (lines : List (List Char)) (a i : Nat) (id : String) : Prop :=
  ∃ c row, a ≤ c ∧ c < i ∧ rowAt parse lines c = some row ∧ row.Calls id ∧
    ∀ r row, c < r → r < i → rowAt parse lines r = some row → ¬ row.Answers id

/-- A user row with words, or an assistant row with a part. -/
def GrokRow.speaks : Bool :=
  (row.type = some "user" && row.speech.isSome) || (row.type = some "assistant" && !row.assistantParts.isEmpty)

def GrokRow.hasResult : Bool := row.type = some "tool_result" && !(trim row.resultText).isEmpty

/-- Read from line `a` on, row `i` has words or a call, or is a result that no call awaits. -/
def GrokShows (lines : List (List Char)) (a i : Nat) : Prop :=
  ReadsFrom parse lines a ∧ a ≤ i ∧ ∃ row, rowAt parse lines i = some row ∧
    (row.speaks = true ∨ row.hasResult = true ∧ ¬ GrokAwaited parse lines a i (row.toolCallId.getD ""))

variable {parse} {lines : List (List Char)}

theorem seen_grokRowStep (s : GrokState) (line : List Char) (row : GrokRow) :
    (grokRowStep s line row).1.seen = [textHash (codeUnits line)] ++ s.seen := by
  simp only [grokRowStep, grokCursor]
  repeat' split
  all_goals rfl

variable {s : GrokState} {line : List Char} {row : GrokRow} {id : String}

theorem mem_pendingTools_grokRowStep :
    id ∈ (grokRowStep s line row).1.pendingTools ↔ row.Calls id ∨ (id ∈ s.pendingTools ∧ ¬ row.Answers id) := by
  simp only [grokRowStep, GrokRow.Calls, GrokRow.Answers]
  by_cases huser : row.type = some "user"
  · simp [huser]
  · by_cases hassistant : row.type = some "assistant"
    · by_cases hparts : row.assistantParts.isEmpty = true <;> simp [hassistant, hparts]
    · by_cases hresult : row.type = some "tool_result"
      · by_cases hpending : row.toolCallId.getD "" ∈ s.pendingTools
        · simp [hresult, hpending, ne_comm, Ne]
        · have hne (hid : id ∈ s.pendingTools) : ¬ row.toolCallId.getD "" = id := fun heq => hpending (heq ▸ hid)
          by_cases hblank : (trim row.resultText).isEmpty = true
          · simpa [hresult, hpending, hblank] using hne
          · simpa [hresult, hpending, hblank] using hne
      · simp [huser, hassistant, hresult]

variable {a i : Nat}

theorem mem_pendingTools (h : a ≤ i) :
    id ∈ (stateAt parse grokRowStep .empty lines a i).pendingTools ↔ GrokAwaited parse lines a i id := by
  induction i, h using Nat.le_induction with
  | base =>
    rw [stateAt, Windows.after_of_le (Nat.le_refl a)]
    constructor
    · intro hid
      cases hid
    · rintro ⟨c, row, hac, hca, -⟩
      omega
  | succ i hai ih =>
    have hgrow {row : GrokRow} (hrow : rowAt parse lines i = some row) (hnot : ¬ row.Answers id) :
        GrokAwaited parse lines a i id → GrokAwaited parse lines a (i + 1) id := by
      rintro ⟨c, crow, hac, hci, hcrow, hcalls, hnone⟩
      refine ⟨c, crow, hac, Nat.lt_succ_of_lt hci, hcrow, hcalls, fun r row' hcr hri hrow' => ?_⟩
      rcases Nat.lt_succ_iff_lt_or_eq.mp hri with hlt | rfl
      · exact hnone r row' hcr hlt hrow'
      · obtain rfl := Option.some.inj (hrow.symm.trans hrow')
        exact hnot
    have hshrink (hnot : ∀ row, rowAt parse lines i = some row → ¬ row.Calls id) :
        GrokAwaited parse lines a (i + 1) id → GrokAwaited parse lines a i id := by
      rintro ⟨c, crow, hac, hci, hcrow, hcalls, hnone⟩
      have hne : c ≠ i := by
        rintro rfl
        exact hnot crow hcrow hcalls
      exact ⟨c, crow, hac, by omega, hcrow, hcalls, fun r row' hcr hri hrow' => hnone r row' hcr (by omega) hrow'⟩
    cases hrow : rowAt parse lines i with
    | none =>
      rw [stateAt_succ_of_none hrow, ih]
      refine ⟨?_, hshrink (by simp [hrow])⟩
      rintro ⟨c, crow, hac, hci, hcrow, hcalls, hnone⟩
      refine ⟨c, crow, hac, Nat.lt_succ_of_lt hci, hcrow, hcalls, fun r row' hcr hri hrow' => ?_⟩
      rcases Nat.lt_succ_iff_lt_or_eq.mp hri with hlt | rfl
      · exact hnone r row' hcr hlt hrow'
      · simp [hrow] at hrow'
    | some row =>
      obtain ⟨line, hline, hof⟩ := rowAt_eq_some.mp hrow
      rw [stateAt_succ hai hline hof, mem_pendingTools_grokRowStep, ih]
      constructor
      · rintro (hcalls | ⟨hawaited, hnot⟩)
        · exact ⟨i, row, hai, Nat.lt_succ_self i, hrow, hcalls, fun r _ hir hri => by omega⟩
        · exact hgrow hrow hnot hawaited
      · intro hawaited
        by_cases hcalls : row.Calls id
        · exact .inl hcalls
        · have hbefore := hshrink (fun row' hrow' => by
            obtain rfl := Option.some.inj (hrow.symm.trans hrow')
            exact hcalls) hawaited
          obtain ⟨c, crow, hac, hci, hcrow, hccalls, hnone⟩ := hawaited
          have hne : c ≠ i := by
            rintro rfl
            obtain rfl := Option.some.inj (hrow.symm.trans hcrow)
            exact hcalls hccalls
          exact .inr ⟨hbefore, hnone i row (by omega) (Nat.lt_succ_self i) hrow⟩

theorem isSome_grokRowStep : (grokRowStep s line row).2.isSome ↔
      row.speaks = true ∨ row.hasResult = true ∧ row.toolCallId.getD "" ∉ s.pendingTools := by
  simp only [grokRowStep, GrokRow.speaks, GrokRow.hasResult]
  by_cases huser : row.type = some "user"
  · simp [huser]
  · by_cases hassistant : row.type = some "assistant"
    · by_cases hparts : row.assistantParts = [] <;> simp [hassistant, hparts]
    · by_cases hresult : row.type = some "tool_result"
      · by_cases hpending : row.toolCallId.getD "" ∈ s.pendingTools
        · simp [hresult, hpending]
        · by_cases hblank : trim row.resultText = [] <;> simp [hresult, hpending, hblank]
      · simp [huser, hassistant, hresult]

theorem isSome_grokEntryAt :
    (entryIdAt parse grokRowStep .empty lines a i).isSome ↔ a ≤ i ∧ ∃ row, rowAt parse lines i = some row ∧
      (row.speaks = true ∨ row.hasResult = true ∧ ¬ GrokAwaited parse lines a i (row.toolCallId.getD "")) := by
  rw [isSome_entryIdAt]
  refine and_congr_right fun hai => ?_
  simp only [isSome_grokRowStep, mem_pendingTools hai, rowAt_eq_some]
  constructor
  · rintro ⟨line, row, hline, hrow, hshown⟩
    exact ⟨row, ⟨line, hline, hrow⟩, hshown⟩
  · rintro ⟨row, ⟨line, hline, hrow⟩, hshown⟩
    exact ⟨line, row, hline, hrow, hshown⟩

theorem isSome_grokIdAt : (grokIdAt parse lines a i).isSome ↔ GrokShows parse lines a i := by
  by_cases h : ReadsFrom parse lines a
  · simp [grokIdAt, GrokShows, h, isSome_grokEntryAt]
  · simp [grokIdAt, GrokShows, h]

theorem GrokAwaited.earlier {b : Nat} (h : a ≤ b) (hawaited : GrokAwaited parse lines b i id) :
    GrokAwaited parse lines a i id := by
  obtain ⟨c, row, hbc, hrest⟩ := hawaited
  exact ⟨c, row, h.trans hbc, hrest⟩

/-- No two rows that get an entry somewhere have one hash, and no row gets one in a window that begins at
another row of its hash. -/
def GrokHashesApart (parse : List Char → LogLine GrokRow) (lines : List (List Char)) : Prop :=
  ∀ j i, j < i → (rowAt parse lines j).isSome → lineHash lines j = lineHash lines i →
    ¬ (GrokShows parse lines j j ∧ GrokShows parse lines i i) ∧ ¬ GrokShows parse lines j i

theorem grokId_zero (key : String) : grokId key 0 = "gx-" ++ key := rfl

theorem grokId_succ_ne (key : String) (n : Nat) : grokId key (n + 1) ≠ grokId key 0 := by
  intro h
  have hlength := congrArg String.length h
  simp only [grokId, if_neg (Nat.succ_ne_zero n), if_pos, String.length_append] at hlength
  have hdash : "-".length = 1 := rfl
  omega

theorem uuid_grokRowStep {e : TranscriptEntry} (h : (grokRowStep s line row).2 = some e) :
    e.uuid = grokId (textHash (codeUnits line)) (s.seen.count (textHash (codeUnits line))) := by
  simp only [grokRowStep, grokCursor] at h
  by_cases huser : row.type = some "user"
  · rw [if_pos huser] at h
    obtain ⟨speech, -, rfl⟩ := Option.map_eq_some_iff.mp h
    rfl
  · rw [if_neg huser] at h
    repeat' split at h
    all_goals cases h
    all_goals rfl

theorem stable_grokIdAt (parse : List Char → LogLine GrokRow) (lines : List (List Char)) :
    Windows.Stable (grokIdAt parse lines) ↔ GrokHashesApart parse lines := by
  have hstable := stable_entryIds parse lines grokRowStep .empty (fun a _ => ReadsFrom parse lines a) GrokState.seen
    (fun line _ => textHash (codeUnits line)) (fun _ _ _ => true) grokId
    (fun a b _ hab h => h.later hab) rfl (fun s line row => seen_grokRowStep s line row)
    (fun s a i line row e _ _ _ he => uuid_grokRowStep he)
    (fun a b i hab hbi h => by
      obtain ⟨hai, row, hrow, hshown⟩ := isSome_grokEntryAt.mp h
      exact isSome_grokEntryAt.mpr ⟨hbi, row, hrow, hshown.imp_right fun ⟨hres, hnot⟩ =>
        ⟨hres, fun hawaited => hnot (hawaited.earlier hab)⟩⟩)
    (fun _ _ _ _ _ _ _ _ _ _ => rfl)
    (fun k k' h => by simpa [grokId_zero] using h) grokId_succ_ne
  have hdraws (j : Nat) : (∃ line row, lines[j]? = some line ∧ rowOf parse line = some row ∧ True) ↔
      (rowAt parse lines j).isSome := by
    simp only [and_true, isSome_rowAt]
  have hrow {a i : Nat} (h : GrokShows parse lines a i) : (rowAt parse lines i).isSome := by
    obtain ⟨-, -, row, hrow, -⟩ := h
    exact Option.isSome_iff_exists.mpr ⟨row, hrow⟩
  have hshows (a i : Nat) : (if ReadsFrom parse lines a then entryIdAt parse grokRowStep .empty lines a i
      else none).isSome ↔ GrokShows parse lines a i := isSome_grokIdAt
  refine hstable.trans ?_
  simp only [hshows, hdraws]
  constructor
  · intro h j i hji hj hhash
    by_cases hi : (rowAt parse lines i).isSome
    · obtain ⟨hboth, hfirst⟩ := h j i hji (by rw [keyAt_textHash hj, keyAt_textHash hi, hhash])
      exact ⟨hboth, fun hshow => hfirst ⟨hj, hshow⟩⟩
    · exact ⟨fun hboth => hi (hrow hboth.2), fun hshow => hi (hrow hshow)⟩
  · intro h j i hji hkeys
    constructor
    · rintro ⟨hj, hi⟩
      rw [keyAt_textHash (hrow hj), keyAt_textHash (hrow hi)] at hkeys
      exact (h j i hji (hrow hj) hkeys).1 ⟨hj, hi⟩
    · rintro ⟨hj, hshow⟩
      rw [keyAt_textHash hj, keyAt_textHash (hrow hshow)] at hkeys
      exact (h j i hji hj hkeys).2 hshow

end Sightr
