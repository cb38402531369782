import Sightr.Lib.JsText
import Sightr.Lib.Table

/-!
# Claude's session log

`parseClaudeTranscript` of `bridge/journal/claude.ts` and the item ids `threads/turn-items.ts` gives its
entries. Rows are parsed JSON, with the fields the parser reads. A tool result, a subagent's hand-back
and a task notification fold onto a call seen earlier in the same parse; what they change of that call
(its result and detail) is not part of any id and is left out, as is the cap on a text's length.
-/

namespace Sightr

open JsText Keyed

/-! ### Rows -/

inductive ContentBlock
  | text (text : String)
  | image (base64 : Bool)
  | thinking (thinking : String)
  /-- A call, with the one-line summary of its input and whether that input is an object. -/
  | toolUse (id : Option String) (name summary : String) (inputIsObject : Bool)
  | toolResult (toolUseId : String) (content : String) (images : Nat) (isError : Bool)
  | other
  deriving DecidableEq

inductive RowContent
  | string (text : String)
  | blocks (blocks : List ContentBlock)
  | other
  deriving DecidableEq

structure RawRow where
  type : String
  subtype : Option String := none
  isMeta : Bool := false
  isSidechain : Bool := false
  isCompactSummary : Bool := false
  content : Option String := none
  uuid : String := ""
  timestamp : String := ""
  /-- `message.content`; none when `message` is no object. -/
  message : Option RowContent := none
  /-- The `agentId` of the row's `toolUseResult`, when it has one. -/
  resultAgentId : Option String := none
  isApiErrorMessage : Bool := false
  deriving DecidableEq

/-! ### Entries -/

inductive EntryRole
  | user | assistant | note | summary
  deriving DecidableEq

/-- A part of an entry, with what its item's id and the placing of images depend on. -/
inductive TranscriptPart
  /-- `plain` when it is neither a notice nor an error. -/
  | text (text : String) (plain : Bool)
  | thinking (text : String)
  | tool (name summary : String)
  deriving DecidableEq

structure TranscriptEntry where
  uuid : String
  ts : String
  role : EntryRole
  parts : List TranscriptPart
  deriving DecidableEq

/-! ### Row texts -/

/-- A CSI sequence's text after `ESC [`, without the sequence. -/
private def csiRest (s : List Char) : Option (List Char) :=
  let params := s.dropWhile fun c => c.isDigit || c = ';' || c = '?'
  let final := params.dropWhile fun c => ' ' ≤ c && c ≤ '/'
  match final with
  | c :: rest => if '@' ≤ c && c ≤ '~' then some rest else none
  | [] => none

private def stripAnsiFrom : Nat → List Char → List Char
  | 0, s => s
  | _ + 1, [] => []
  | fuel + 1, c :: s =>
    if c ≠ '\x1b' then c :: stripAnsiFrom fuel s
    else
      match s with
      | '[' :: rest =>
        match csiRest rest with
        | some rest => stripAnsiFrom fuel rest
        | none => c :: stripAnsiFrom fuel s
      | d :: rest =>
        if ('@' ≤ d && d ≤ 'Z') || ('\\' ≤ d && d ≤ '_') then stripAnsiFrom fuel rest
        else c :: stripAnsiFrom fuel s
      | [] => [c]

def stripAnsi (text : List Char) : List Char := stripAnsiFrom text.length text

/-- True when the content is this envelope, rather than merely mentioning the tag. -/
def isEnvelope (tag : String) (text : List Char) : Bool := startsWith ("<" ++ tag ++ ">").toList (trimStart text)

/-- Inner text of the first `<tag>…</tag>`, trimmed. -/
def inner (tag : String) (text : List Char) : Option (List Char) :=
  (between ("<" ++ tag ++ ">").toList ("</" ++ tag ++ ">").toList text).map trim

/-- Claude's interrupt marker: a row it writes when the operator presses Esc. -/
def isInterruptMarker (text : List Char) : Bool :=
  match cut "[Request interrupted by user".toList (trim text) with
  | some ([], rest) => rest.getLast? = some ']' && !rest.dropLast.contains ']'
  | _ => false

def interruptPart (text : List Char) : TranscriptPart :=
  if (cut "tool use".toList (text.map Char.toLower)).isSome then
    .text "Stopped by the user during a tool call" false
  else .text "Stopped by the user" false

/-- The agent a hand-back row at the start of the text comes from. -/
private def handbackAt (text : List Char) : Option String := do
  let (before, rest) ← cut "<agent-message from=\"".toList text
  guard before.isEmpty
  let agentId := rest.takeWhile (· ≠ '"')
  guard (!agentId.isEmpty)
  let (between, rest) ← cut "\">".toList (rest.drop agentId.length)
  guard between.isEmpty
  guard (startsWith "[Subagent hand-back]".toList (trimStart rest))
  return String.ofList agentId

def parseSubagentHandback (text : List Char) : Option String := text.tails.findSome? handbackAt

/-- Commands Claude logs twice; their envelope is dropped. -/
def ECHOED_COMMANDS : List String := ["/compact"]

/-- What a string content says: none drops the row. The third part is a slash command's name. -/
def classifyUserText (raw : List Char) : Option (EntryRole × List Char × Option String) :=
  let text := stripAnsi raw
  if isEnvelope "system-reminder" text then none
  else if isEnvelope "local-command-caveat" text then none
  else if isEnvelope "command-name" text then
    let name := (inner "command-name" text).getD []
    let args := (inner "command-args" text).getD []
    let line := trim (name ++ [' '] ++ args)
    if line.isEmpty then none else some (.user, line, some (String.ofList (trim name)))
  else if isEnvelope "local-command-stdout" text then
    let stdout := (inner "local-command-stdout" text).getD []
    if stdout.isEmpty then none else some (.note, stdout, none)
  else if isEnvelope "task-notification" text then
    match inner "summary" text with
    | some summary => if summary.isEmpty then none else some (.note, summary, none)
    | none => none
  else if (trim text).isEmpty then none
  else some (.user, text, none)

/-! ### The parser -/

structure PendingTool where
  id : String
  name : String
  deriving DecidableEq

/-- The calls of this parse that later rows may fold onto. -/
structure ParserState where
  pendingTools : Table PendingTool.id
  /-- Subagent calls by their call's id, and by their agent's. -/
  subagentsByCall : List String
  subagentsByAgent : List String
  deriving DecidableEq

def ParserState.empty : ParserState := ⟨.empty, [], []⟩

/-- What a row's text may fold onto: the agents and calls it names. -/
inductive SubagentRow
  | handback (agentId : String)
  | notification (toolUseId taskId : Option String)
  deriving DecidableEq

def subagentRow (raw : String) : Option SubagentRow :=
  match parseSubagentHandback raw.toList with
  | some agentId => some (.handback agentId)
  | none =>
    if !isEnvelope "task-notification" (stripAnsi raw.toList) then none
    else
      let field := fun tag =>
        (inner tag raw.toList).bind fun v => if v.isEmpty then none else some (String.ofList v)
      some (.notification (field "tool-use-id") (field "task-id"))

variable (s : ParserState)

/-- Does the row's text fold onto a subagent call? Then the row is consumed. -/
def ParserState.foldsSubagentRow (raw : String) : Bool :=
  match subagentRow raw with
  | none => false
  | some (.handback agentId) => s.subagentsByAgent.contains agentId
  | some (.notification toolUseId taskId) =>
    toolUseId.any (s.subagentsByCall.contains ·) || taskId.any (s.subagentsByAgent.contains ·)

structure RowState where
  parser : ParserState
  parts : List TranscriptPart
  looseImages : Bool
  /-- A result of this row was folded onto its call. -/
  lastTarget : Bool
  note : Bool
  deriving DecidableEq

def isSubagentTool (name : String) : Bool := name = "Agent" || name = "Task"

variable (row : RawRow)

def blockStep (toolResultCount : Nat) (s : RowState) : ContentBlock → RowState
  | .text text =>
    if row.type = "user" && isInterruptMarker text.toList then
      { s with note := true, parts := s.parts ++ [interruptPart text.toList] }
    else if (trim text.toList).isEmpty then s
    else
      let failure := row.type = "assistant" && row.isApiErrorMessage
      { s with parts := s.parts ++ [.text (String.ofList (stripAnsi text.toList)) !failure] }
  | .image base64 => { s with looseImages := s.looseImages || base64 }
  | .thinking thinking =>
    if (trim thinking.toList).isEmpty then s
    else { s with parts := s.parts ++ [.thinking (String.ofList (stripAnsi thinking.toList))] }
  | .toolUse id name summary inputIsObject =>
    let parts := s.parts ++ [.tool name summary]
    match id with
    | none => { s with parts }
    | some id =>
      { s with
        parts
        parser := { s.parser with
          pendingTools := s.parser.pendingTools.set { id, name }
          subagentsByCall :=
            if isSubagentTool name && inputIsObject then id :: s.parser.subagentsByCall
            else s.parser.subagentsByCall } }
  | .toolResult toolUseId content images isError =>
    match s.parser.pendingTools.find? toolUseId with
    | some target =>
      -- The call's own detail says which agent it launched only once its result is read.
      let agentId := if toolResultCount = 1 && !isError && isSubagentTool target.name
        then row.resultAgentId else none
      { s with
        lastTarget := true
        parser := { s.parser with
          pendingTools := s.parser.pendingTools.filter (·.id ≠ toolUseId)
          subagentsByAgent := agentId.toList ++ s.parser.subagentsByAgent } }
    | none =>
      -- An orphan result is kept, unattached.
      if (trim (stripAnsi content.toList)).isEmpty && images = 0 then s
      else { s with parts := s.parts ++ [.tool "result" ""] }
  | .other => s

/-- Where a row's pasted images go: to its words, to the call it answers, or to a message of their own. -/
def placeImages (s : RowState) : List TranscriptPart :=
  let words := s.parts.any fun | .text _ plain => plain | _ => false
  if s.looseImages && !words && !s.lastTarget && row.type = "user" then s.parts ++ [.text "" true]
  else s.parts

def isToolResult : ContentBlock → Bool
  | .toolResult .. => true
  | _ => false

/-- The entry of a row with these parts, if there is anything to show. -/
def rowEntry (parts : List TranscriptPart) (note : Bool) : Option TranscriptEntry :=
  if parts.isEmpty then none
  else
    let role := if row.isCompactSummary then .summary
      else if row.type = "assistant" then .assistant
      else if note then .note else .user
    some { uuid := row.uuid, ts := row.timestamp, role, parts }

/-- A slash command's own row, or its output, as a `system` row. -/
def systemEntry (content : String) : Option TranscriptEntry :=
  match classifyUserText content.toList with
  | none => none
  | some (role, text, command) =>
    if command.any (ECHOED_COMMANDS.contains ·) then none
    else some { uuid := row.uuid, ts := row.timestamp, role, parts := [.text (String.ofList text) true] }

def messageStep (row : RawRow) : ParserState × Option TranscriptEntry :=
  match row.message with
  | none => (s, none)
  | some .other => (s, none)
  | some (.string text) =>
    if row.type = "user" && isInterruptMarker text.toList then
      (s, rowEntry row [interruptPart text.toList] true)
    else
      match classifyUserText text.toList with
      | none => (s, none)
      | some (role, words, command) =>
        if command.any (ECHOED_COMMANDS.contains ·) then (s, none)
        else (s, rowEntry row [.text (String.ofList words) true] (role = .note))
  | some (.blocks blocks) =>
    let r := blocks.foldl (blockStep row (blocks.countP isToolResult)) ⟨s, [], false, false, false⟩
    (r.parser, rowEntry row (placeImages row r) r.note)

def rowStep (row : RawRow) : ParserState × Option TranscriptEntry :=
  if row.isSidechain then (s, none)
  else if row.type = "system" then
    if row.subtype = some "local_command" then (s, row.content.bind (systemEntry row)) else (s, none)
  else if row.type = "user" then
    match row.message with
    | some (.string text) =>
      if s.foldsSubagentRow text || row.isMeta then (s, none) else messageStep s row
    | _ => if row.isMeta then (s, none) else messageStep s row
  else if row.type = "assistant" then messageStep s row
  else (s, none)

/-- The rows of a log from a parser state: the entries so far, and what later rows may fold onto. -/
def parseRows (s : ParserState) : List RawRow → ParserState × List TranscriptEntry
  | [] => (s, [])
  | row :: rows =>
    let (s, entry) := rowStep s row
    let (s, entries) := parseRows s rows
    (s, entry.toList ++ entries)

def parseClaudeTranscript (rows : List RawRow) : List TranscriptEntry := (parseRows .empty rows).2

/-! ### Item ids -/

def shortHash (units : List Nat) : String :=
  base36 (units.foldl (fun hash unit => (hash * 33 + unit) % 2 ^ 32) 5381)

def EntryRole.text : EntryRole → String
  | user => "user"
  | assistant => "assistant"
  | note => "note"
  | summary => "summary"

def partHead : Option TranscriptPart → String
  | none => ""
  | some (.tool name summary) => name ++ " " ++ summary
  | some (.text text _) | some (.thinking text) => text

/-- The entry's key: its uuid, or for an entry with none a hash of its role, time and first part. -/
def entryKey (entry : TranscriptEntry) : String :=
  if entry.uuid ≠ "" then entry.uuid
  else
    let head := (codeUnits (partHead entry.parts.head?).toList).take 80
    "h_" ++ shortHash (codeUnits (entry.role.text ++ "|" ++ entry.ts ++ "|").toList ++ head)

def itemIdFor (entry : TranscriptEntry) (partIndex : Nat) : String := entryKey entry ++ ":" ++ toString partIndex

/-- The ids of an entry's items: `entryItems` makes one of each part of a Claude entry. -/
def entryItemIds (entry : TranscriptEntry) : List String := (List.range entry.parts.length).map (itemIdFor entry)

def itemIds (entries : List TranscriptEntry) : List String := entries.flatMap entryItemIds

/-! ### Parsing in pieces -/

theorem parseRows_append (rows more : List RawRow) : parseRows s (rows ++ more) =
      ((parseRows (parseRows s rows).1 more).1,
        (parseRows s rows).2 ++ (parseRows (parseRows s rows).1 more).2) := by
  induction rows generalizing s with
  | nil => rfl
  | cons row rows ih => simp only [List.cons_append, parseRows, ih, List.append_assoc]

/-! ### Rows that fold onto no earlier call -/

def RawRow.results : List String :=
  match row.message with
  | some (.blocks blocks) => blocks.filterMap fun | .toolResult id .. => some id | _ => none
  | _ => []

def RawRow.notified : List String :=
  match row.message with
  | some (.string text) =>
    match subagentRow text with
    | some (.notification toolUseId _) => toolUseId.toList
    | _ => []
  | _ => []

def RawRow.reports : List String :=
  match row.message with
  | some (.string text) =>
    match subagentRow text with
    | some (.handback agentId) => [agentId]
    | some (.notification _ taskId) => taskId.toList
    | none => []
  | _ => []

/-- The row answers and reports on nothing these calls wait for. -/
structure ParserState.Unnamed (old : ParserState) (row : RawRow) : Prop where
  results : ∀ id ∈ row.results, old.pendingTools.find? id = none
  notified : ∀ id ∈ row.notified, id ∉ old.subagentsByCall
  reports : ∀ agentId ∈ row.reports, agentId ∉ old.subagentsByAgent

instance (old : ParserState) (row : RawRow) : Decidable (old.Unnamed row) :=
  decidable_of_iff ((∀ id ∈ row.results, old.pendingTools.find? id = none) ∧
      (∀ id ∈ row.notified, id ∉ old.subagentsByCall) ∧
      ∀ agentId ∈ row.reports, agentId ∉ old.subagentsByAgent)
    ⟨fun ⟨h, h', h''⟩ => ⟨h, h', h''⟩, fun ⟨h, h', h''⟩ => ⟨h, h', h''⟩⟩

/-- No row of the window folds onto a call that stands before it. -/
def FoldsWithin (before window : List RawRow) : Prop := ∀ row ∈ window, (parseRows .empty before).1.Unnamed row

instance (before window : List RawRow) : Decidable (FoldsWithin before window) :=
  inferInstanceAs (Decidable (∀ row ∈ window, _))

/-- Two parsers that know the same calls, apart from those of an old one. -/
structure ParserState.SameBut (s old t : ParserState) : Prop where
  pending : ∀ id, old.pendingTools.find? id = none → s.pendingTools.find? id = t.pendingTools.find? id
  byCall : ∀ id, id ∉ old.subagentsByCall → (id ∈ s.subagentsByCall ↔ id ∈ t.subagentsByCall)
  byAgent : ∀ agentId, agentId ∉ old.subagentsByAgent →
    (agentId ∈ s.subagentsByAgent ↔ agentId ∈ t.subagentsByAgent)

theorem ParserState.SameBut.of_empty : s.SameBut s .empty where
  pending _ h := h
  byCall _ h := iff_of_false h List.not_mem_nil
  byAgent _ h := iff_of_false h List.not_mem_nil

variable {old : ParserState}

theorem contains_congr {l l' : List String} {a : String} (h : a ∈ l ↔ a ∈ l') : l.contains a = l'.contains a := by
  rw [Bool.eq_iff_iff, List.contains_iff_mem, List.contains_iff_mem]
  exact h

variable {s t : ParserState} {row : RawRow}

theorem ParserState.SameBut.foldsSubagentRow (h : s.SameBut old t) {text : String}
    (htext : row.message = some (.string text)) (hrow : old.Unnamed row) :
    s.foldsSubagentRow text = t.foldsSubagentRow text := by
  unfold ParserState.foldsSubagentRow
  cases hnamed : subagentRow text with
  | none => rfl
  | some named =>
    cases named with
    | handback agentId =>
      exact contains_congr (h.byAgent agentId (hrow.reports agentId (by simp [RawRow.reports, htext, hnamed])))
    | notification toolUseId taskId =>
      have hcall : toolUseId.any (s.subagentsByCall.contains ·) = toolUseId.any (t.subagentsByCall.contains ·) := by
        cases toolUseId with
        | none => rfl
        | some id =>
          exact contains_congr (h.byCall id (hrow.notified id (by simp [RawRow.notified, htext, hnamed])))
      have hagent : taskId.any (s.subagentsByAgent.contains ·) = taskId.any (t.subagentsByAgent.contains ·) := by
        cases taskId with
        | none => rfl
        | some id =>
          exact contains_congr (h.byAgent id (hrow.reports id (by simp [RawRow.reports, htext, hnamed])))
      simp only [hcall, hagent]

structure RowState.SameBut (old : ParserState) (s t : RowState) : Prop where
  parser : s.parser.SameBut old t.parser
  parts : s.parts = t.parts
  looseImages : s.looseImages = t.looseImages
  lastTarget : s.lastTarget = t.lastTarget
  note : s.note = t.note

theorem RowState.SameBut.blockStep {s t : RowState} (h : s.SameBut old t) {n : Nat} {block : ContentBlock}
    (hblock : ∀ id content images isError, block = .toolResult id content images isError →
      old.pendingTools.find? id = none) :
    (Sightr.blockStep row n s block).SameBut old (Sightr.blockStep row n t block) := by
  obtain ⟨hparser, hparts, himages, htarget, hnote⟩ := h
  cases block with
  | text text =>
    simp only [Sightr.blockStep]
    split
    · exact ⟨hparser, by rw [hparts], himages, htarget, rfl⟩
    split
    · exact ⟨hparser, hparts, himages, htarget, hnote⟩
    · exact ⟨hparser, by rw [hparts], himages, htarget, hnote⟩
  | image base64 => exact ⟨hparser, hparts, by simp only [Sightr.blockStep, himages], htarget, hnote⟩
  | thinking thinking =>
    simp only [Sightr.blockStep]
    split
    · exact ⟨hparser, hparts, himages, htarget, hnote⟩
    · exact ⟨hparser, by rw [hparts], himages, htarget, hnote⟩
  | toolUse id name summary inputIsObject =>
    cases id with
    | none => exact ⟨hparser, by simp only [Sightr.blockStep, hparts], himages, htarget, hnote⟩
    | some id =>
      refine ⟨⟨fun k hk => ?_, fun k hk => ?_, hparser.byAgent⟩,
        by simp only [Sightr.blockStep, hparts], himages, htarget, hnote⟩
      · show (s.parser.pendingTools.set _).find? k = (t.parser.pendingTools.set _).find? k
        rw [Table.find?_set, Table.find?_set, hparser.pending k hk]
      · simp only [Sightr.blockStep]
        split
        · rw [List.mem_cons, List.mem_cons, hparser.byCall k hk]
        · exact hparser.byCall k hk
  | toolResult id content images isError =>
    have hpending := hparser.pending id (hblock id content images isError rfl)
    simp only [Sightr.blockStep]
    rw [hpending]
    split
    · refine ⟨⟨fun k hk => ?_, hparser.byCall, fun k hk => ?_⟩, hparts, himages, rfl, hnote⟩
      · rw [Table.find?_filter, Table.find?_filter, hparser.pending k hk]
      · rw [List.mem_append, List.mem_append, hparser.byAgent k hk]
    · split
      · exact ⟨hparser, hparts, himages, htarget, hnote⟩
      · exact ⟨hparser, by rw [hparts], himages, htarget, hnote⟩
  | other => exact ⟨hparser, hparts, himages, htarget, hnote⟩

section

variable (h : s.SameBut old t)
include h

theorem ParserState.SameBut.messageStep (hrow : old.Unnamed row) :
    (Sightr.messageStep s row).1.SameBut old (Sightr.messageStep t row).1 ∧
      (Sightr.messageStep s row).2 = (Sightr.messageStep t row).2 := by
  unfold Sightr.messageStep
  cases hmessage : row.message with
  | none => exact ⟨h, rfl⟩
  | some content =>
    cases content with
    | other => exact ⟨h, rfl⟩
    | string text =>
      dsimp only
      split
      · exact ⟨h, rfl⟩
      split
      · exact ⟨h, rfl⟩
      split <;> exact ⟨h, rfl⟩
    | blocks blocks =>
      dsimp only
      have hfold : ∀ (l : List ContentBlock) (a b : RowState), a.SameBut old b →
          (∀ block ∈ l, ∀ id content images isError,
            block = .toolResult id content images isError → old.pendingTools.find? id = none) →
          (l.foldl (Sightr.blockStep row (blocks.countP isToolResult)) a).SameBut old
            (l.foldl (Sightr.blockStep row (blocks.countP isToolResult)) b) := by
        intro l
        induction l with
        | nil => exact fun _ _ hab _ => hab
        | cons block l ih =>
          intro a b hab hl
          exact ih _ _ (hab.blockStep (hl block List.mem_cons_self))
            fun block' hblock' => hl block' (List.mem_cons_of_mem _ hblock')
      have hend := hfold blocks ⟨s, [], false, false, false⟩ ⟨t, [], false, false, false⟩
        ⟨h, rfl, rfl, rfl, rfl⟩ fun block hblock id content images isError heq => by
          refine hrow.results id ?_
          simp only [RawRow.results, hmessage, List.mem_filterMap]
          exact ⟨block, hblock, by rw [heq]⟩
      refine ⟨hend.parser, ?_⟩
      rw [placeImages, placeImages, hend.parts, hend.looseImages, hend.lastTarget, hend.note]

theorem ParserState.SameBut.rowStep (hrow : old.Unnamed row) :
    (Sightr.rowStep s row).1.SameBut old (Sightr.rowStep t row).1 ∧
      (Sightr.rowStep s row).2 = (Sightr.rowStep t row).2 := by
  have hmessage := h.messageStep hrow
  unfold Sightr.rowStep
  split
  · exact ⟨h, rfl⟩
  split
  · split <;> exact ⟨h, rfl⟩
  split
  · split
    · rename_i text htext
      rw [h.foldsSubagentRow htext hrow]
      split
      · exact ⟨h, rfl⟩
      · exact hmessage
    · split
      · exact ⟨h, rfl⟩
      · exact hmessage
  split
  · exact hmessage
  · exact ⟨h, rfl⟩

theorem ParserState.SameBut.parseRows {rows : List RawRow} (hrows : ∀ row ∈ rows, old.Unnamed row) :
    (Sightr.parseRows s rows).2 = (Sightr.parseRows t rows).2 := by
  induction rows generalizing s t with
  | nil => rfl
  | cons row rows ih =>
    obtain ⟨hnext, hentry⟩ := h.rowStep (hrows row List.mem_cons_self)
    have hrest := ih hnext fun row' hrow' => hrows row' (List.mem_cons_of_mem _ hrow')
    simp only [Sightr.parseRows, hentry, hrest]

end

/-- Rows that fold onto no call before them parse on their own as they do after those rows. -/
theorem parseRows_of_foldsWithin {before window : List RawRow} (h : FoldsWithin before window) :
    parseClaudeTranscript (before ++ window) = parseClaudeTranscript before ++ parseClaudeTranscript window := by
  have hwindow := (ParserState.SameBut.of_empty (parseRows .empty before).1).parseRows h
  rw [parseClaudeTranscript, parseRows_append, hwindow]
  rfl

end Sightr
