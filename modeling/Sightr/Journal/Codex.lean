import Sightr.Journal.Lines

/-!
# Codex's rollouts

`parseCodexTranscript` of `bridge/journal/codex.ts`. An entry is named by the item's own id, else the line's
ordinal, else the call's id, else a hash of its time, its type and the head of its text; a repeat of a name
within one parse gets a number. A tool output folds onto the call it answers; what it changes there is not
part of any id and is left out. The one-line summary of a call's arguments is a field of its row.
-/

namespace Sightr

open JsText

/-! ### Rows -/

structure CodexItem where
  type : Option String := none
  text : Option (List Char) := none
  deriving DecidableEq

inductive CodexContent
  | string (text : List Char)
  | items (items : List CodexItem)
  | other
  deriving DecidableEq

/-- A tool's output: a content, or an object with a text. -/
inductive CodexOutput
  | content (content : CodexContent)
  | object (content : List Char)
  deriving DecidableEq

structure CodexPayload where
  type : String := ""
  id : Option String := none
  callId : Option String := none
  role : Option String := none
  content : CodexContent := .other
  summary : CodexContent := .other
  name : Option String := none
  toolSummary : String := ""
  output : CodexOutput := .content .other
  tools : Nat := 0
  deriving DecidableEq

/-- A row whose payload is an object, as far as the parser reads it. -/
structure CodexLine where
  timestamp : String := ""
  ordinal : Option String := none
  type : Option String := none
  payload : CodexPayload := {}
  deriving DecidableEq

/-! ### Texts -/

def CODEX_CONTEXT_PREFIXES : List String := ["<environment_context>", "# AGENTS.md instructions",
  "<user_instructions>",
  "<skill>",
  "<hook_prompt",
  "<user_shell_command>",
  "<turn_aborted>",
  "<subagent_notification>",
  "<agent_message_board_notification>",
  "<codex_internal_context",
  "<goal_context>",
  "<recommended_plugins>",
  "Warning: apply_patch was requested via ",
  "Warning: Your account was flagged for potentially high-risk cyber activity",
  "Warning: The maximum number of unified exec processes you can keep open is"]

/-- Text Codex sends as a user's that the user never typed. -/
def isCodexContextText (text : List Char) : Bool :=
  let head := asciiLowerCase ((trimStart text).take 96)
  CODEX_CONTEXT_PREFIXES.any fun opening => startsWith (asciiLowerCase opening.toList) head

/-- The texts of the content's items of the given types. -/
def contentTexts (content : CodexContent) (types : List String) : List (List Char) :=
  match content with
  | .string text => [text]
  | .items items => items.filterMap fun item => if item.type.any (types.contains ·) then item.text else none
  | .other => []

private def isInteger (s : List Char) : Bool :=
  let digits := match s with
    | '-' :: rest => rest
    | _ => s
  !digits.isEmpty && digits.all (·.isDigit)

private def exitCode (line : List Char) : Option (List Char) :=
  ["Exit code: ", "Process exited with code "].findSome? fun opening =>
    if startsWith opening.toList line && isInteger (line.drop opening.length) then some (line.drop opening.length)
    else none

def isHeaderLine (line : List Char) : Bool :=
  (exitCode line).isSome ||
    ["Chunk ID: ", "Wall time: ", "Process running with session ID ", "Original token count: ",
      "Total output lines: "].any fun opening =>
      startsWith opening.toList line && (line.drop opening.length).all isInLine

/-- A tool's output as text, and whether it reports failure. `legacy` reads the text an older build wrote as
JSON, with whether its exit code is one of failure. -/
def readToolOutput (legacy : List Char → Option (List Char × Bool)) (output : CodexOutput) : List Char × Bool :=
  match output with
  | .content .other => ([], false)
  | _ =>
    let text := match output with
      | .content (.string text) => text
      | .content content => ['\n'].intercalate (contentTexts content ["input_text", "output_text", "text"])
      | .object content => content
    match if startsWith ['{'] text then legacy text else none with
    | some read => read
    | none =>
      let lines := splitLines text
      let outputAt := lines.idxOf "Output:".toList
      if 0 < outputAt ∧ outputAt ≤ 8 ∧ outputAt < lines.length ∧ (lines.take outputAt).all isHeaderLine then
        (['\n'].intercalate (lines.drop (outputAt + 1)),
          ((lines.take outputAt).findSome? exitCode).any fun code => code.any fun c => c ≠ '0' && c ≠ '-')
      else (text, false)

/-! ### The parser -/

/-- What a row shows: the head and the call its key may be made of, and its entry's parts. -/
structure CodexShown where
  head : List Char
  callId : Option String := none
  role : EntryRole
  parts : List TranscriptPart
  deriving DecidableEq

private def notBlank (text : List Char) : Bool := !(trim text).isEmpty

private def textShown (role : EntryRole) : List (List Char) → Option CodexShown
  | [] => none
  | first :: texts => some {
      head := first
      role
      parts := (first :: texts).map fun text => .text (String.ofList (stripAnsi text)) true }

private def toolShown (name summary : String) (callId : Option String) (head : List Char) : CodexShown where
  head
  callId
  role := .assistant
  parts := [.tool name summary]

def CodexLine.isOutput (line : CodexLine) : Bool :=
  line.type = some "response_item" &&
    ["function_call_output", "custom_tool_call_output", "tool_search_output"].contains line.payload.type

def CodexLine.call (line : CodexLine) : Option String :=
  let p := line.payload
  if line.type ≠ some "response_item" then none
  else if ["function_call", "custom_tool_call", "tool_search_call"].contains p.type then p.callId.filter (· ≠ "")
  else if p.type = "local_shell_call" then (p.callId <|> p.id).filter (· ≠ "")
  else none

variable (legacy : List Char → Option (List Char × Bool))

/-- What a row shows, unless it is an output that a call takes. -/
def CodexLine.shown (line : CodexLine) : Option CodexShown :=
  let p := line.payload
  if line.type = some "compacted" then
    some { head := "compacted".toList, role := .note, parts := [.text "Context compacted" true] }
  else if line.type ≠ some "response_item" then none
  else
    match p.type with
    | "message" =>
      if p.role = some "user" then
        textShown .user ((contentTexts p.content ["input_text"]).filter fun t => notBlank t && !isCodexContextText t)
      else if p.role = some "assistant" then
        textShown .assistant ((contentTexts p.content ["output_text"]).filter notBlank)
      else none
    | "reasoning" =>
      let summary := (contentTexts p.summary ["summary_text"]).filter notBlank
      let texts := if summary.isEmpty then (contentTexts p.content ["reasoning_text", "text"]).filter notBlank
        else summary
      if texts.isEmpty then none
      else
        let joined := ['\n', '\n'].intercalate texts
        some { head := joined, role := .assistant, parts := [.thinking (String.ofList (stripAnsi joined))] }
    | "function_call" | "custom_tool_call" =>
      let name := p.name.getD "tool"
      some (toolShown name p.toolSummary p.callId name.toList)
    | "local_shell_call" => some (toolShown "shell" p.toolSummary (p.callId <|> p.id) "local_shell".toList)
    | "tool_search_call" => some (toolShown "tool_search" p.toolSummary p.callId "tool_search".toList)
    | "web_search_call" =>
      some (toolShown "web_search" p.toolSummary none ("web_search ".toList ++ p.toolSummary.toList))
    | "image_generation_call" =>
      some (toolShown "image_generation" p.toolSummary none "image_generation".toList)
    | "function_call_output" | "custom_tool_call_output" | "tool_search_output" =>
      let read := if p.type = "tool_search_output" then ((toString p.tools).toList ++ " tools".toList, false)
        else readToolOutput legacy p.output
      if notBlank read.1 || read.2 then some (toolShown (p.name.getD "result") "" p.callId read.1) else none
    | _ => none

def codexKey (line : CodexLine) (head : List Char) (callId : Option String) : String :=
  let p := line.payload
  match p.id.filter (· ≠ "") with
  | some own => own
  | none =>
    match line.ordinal with
    | some ordinal => "o" ++ ordinal
    | none =>
      match callId.filter (· ≠ "") with
      | some callId => p.type ++ "_" ++ callId
      | none =>
        "h_" ++ textHash (codeUnits (line.timestamp ++ "|" ++ p.type ++ "|").toList ++ (codeUnits head).take 64)

def CodexLine.key? (line : CodexLine) : Option String :=
  (line.shown legacy).map fun shown => codexKey line shown.head shown.callId

structure CodexState where
  pending : List String
  seen : List String
  deriving DecidableEq

def CodexState.empty : CodexState := ⟨[], []⟩

def codexId (key : String) (n : Nat) : String := if n = 0 then key else key ++ "~" ++ toString n

/-- A call takes the row: it is the output it awaits. -/
def CodexState.takes (s : CodexState) (line : CodexLine) : Bool :=
  line.isOutput && line.payload.callId.any (s.pending.contains ·)

def codexRowStep (s : CodexState) (_text : List Char) (line : CodexLine) : CodexState × Option TranscriptEntry :=
  if s.takes line then ({ s with pending := s.pending.filter (line.payload.callId ≠ some ·) }, none)
  else
    match line.shown legacy with
    | none => (s, none)
    | some shown =>
      let key := codexKey line shown.head shown.callId
      ({ pending := line.call.toList ++ s.pending, seen := key :: s.seen }, some {
          uuid := codexId key (s.seen.count key)
          ts := line.timestamp
          role := shown.role
          parts := shown.parts })

variable (parse : List Char → LogLine CodexLine)

/-- The entries of a log. No row throws: one that is no object is skipped. -/
def parseCodexTranscript (text : List Char) : List TranscriptEntry :=
  Windows.entries (lineStep parse (codexRowStep legacy)) .empty (splitLines text)

/-- The id of the entry that row `i` gets when the log is parsed from line `a` on. -/
def codexIdAt (lines : List (List Char)) (a i : Nat) : Option String :=
  entryIdAt parse (codexRowStep legacy) .empty lines a i

/-- The rows that show something have different keys. -/
def CodexKeysApart (lines : List (List Char)) : Prop :=
  ∀ j i k, j < i → (rowAt parse lines j).bind (·.key? legacy) = some k →
    (rowAt parse lines i).bind (·.key? legacy) ≠ some k

variable {legacy : List Char → Option (List Char × Bool)} {parse : List Char → LogLine CodexLine}
  {lines : List (List Char)}

/-- The parse of a text that starts at a line start of another: the entries its lines get from some line on. -/
theorem parseCodexTranscript_window {before window : List Char} (h : before = [] ∨ ∃ head, before = head ++ ['\n']) :
    ∃ a, parseCodexTranscript legacy parse window = let lines := splitLines (before ++ window)
      (List.range (lines.length - a)).filterMap fun i =>
        Windows.entryAt (lineStep parse (codexRowStep legacy)) .empty lines a (a + i) := by
  obtain ⟨a, ha⟩ := splitLines_of_line_start window h
  exact ⟨a, by simp only [parseCodexTranscript, ha, Windows.entries_drop]⟩

variable {s : CodexState} {text : List Char} {line : CodexLine}

theorem isSome_codexRowStep :
    (codexRowStep legacy s text line).2.isSome ↔ s.takes line = false ∧ (line.key? legacy).isSome := by
  rw [codexRowStep, CodexLine.key?, Option.isSome_map]
  cases s.takes line with
  | true => simp
  | false => cases line.shown legacy <;> simp

theorem uuid_codexRowStep {e : TranscriptEntry} (h : (codexRowStep legacy s text line).2 = some e) :
    e.uuid = codexId ((line.key? legacy).getD "") (s.seen.count ((line.key? legacy).getD "")) := by
  rw [codexRowStep] at h
  split at h
  · cases h
  · split at h
    · cases h
    · rename_i shown hshown
      cases h
      rw [CodexLine.key?, hshown]
      rfl

theorem seen_codexRowStep (s : CodexState) (text : List Char) (line : CodexLine) :
    (codexRowStep legacy s text line).1.seen =
      (if (codexRowStep legacy s text line).2.isSome then [(line.key? legacy).getD ""] else []) ++ s.seen := by
  unfold codexRowStep CodexLine.key?
  cases s.takes line with
  | true => rfl
  | false => cases line.shown legacy <;> rfl

theorem call_of_isOutput (h : line.isOutput = true) : line.call = none := by
  simp only [CodexLine.isOutput, Bool.and_eq_true, List.contains_eq_mem, decide_eq_true_eq, List.mem_cons,
    List.not_mem_nil, or_false] at h
  obtain ⟨-, htype | htype | htype⟩ := h <;> simp [CodexLine.call, htype]

variable {t : CodexState}

theorem CodexState.takes_of_subset (h : s.pending ⊆ t.pending) (hs : s.takes line = true) :
    t.takes line = true := by
  simp only [CodexState.takes, Bool.and_eq_true, Option.any_eq_true, List.contains_eq_mem, decide_eq_true_eq] at hs ⊢
  obtain ⟨hout, callId, hcall, hmem⟩ := hs
  exact ⟨hout, callId, hcall, h hmem⟩

theorem pending_codexRowStep (h : s.pending ⊆ t.pending) :
    (codexRowStep legacy s text line).1.pending ⊆ (codexRowStep legacy t text line).1.pending := by
  cases hs : s.takes line with
  | true =>
    rw [codexRowStep, codexRowStep, if_pos hs, if_pos (CodexState.takes_of_subset h hs)]
    exact List.filter_subset _ h
  | false =>
    cases ht : t.takes line with
    | false =>
      rw [codexRowStep, codexRowStep, hs, ht]
      cases line.shown legacy with
      | none => exact h
      | some shown =>
        intro id hid
        exact List.mem_append.mpr ((List.mem_append.mp hid).imp_right fun hs => h hs)
    | true =>
      -- the call that takes it waits in the larger state only
      have hout : line.isOutput = true := by
        simp only [CodexState.takes, Bool.and_eq_true] at ht
        exact ht.1
      have hkeep : (codexRowStep legacy s text line).1.pending = s.pending := by
        rw [codexRowStep, hs, if_neg Bool.false_ne_true]
        cases line.shown legacy with
        | none => rfl
        | some shown => simp [call_of_isOutput hout]
      rw [hkeep, codexRowStep, if_pos ht]
      intro id hid
      refine List.mem_filter.mpr ⟨h hid, decide_eq_true fun hcall => ?_⟩
      simp [CodexState.takes, hout, hcall, hid] at hs

variable {a b i : Nat}

theorem pending_stateAt (hab : a ≤ b) (hbi : b ≤ i) :
    (stateAt parse (codexRowStep legacy) .empty lines b i).pending ⊆
      (stateAt parse (codexRowStep legacy) .empty lines a i).pending := by
  induction i, hbi using Nat.le_induction with
  | base =>
    rw [stateAt, Windows.after_of_le (Nat.le_refl b)]
    exact List.nil_subset _
  | succ i hbi ih =>
    cases hrow : rowAt parse lines i with
    | none => rwa [stateAt_succ_of_none hrow, stateAt_succ_of_none hrow]
    | some row =>
      obtain ⟨line, hline, hof⟩ := rowAt_eq_some.mp hrow
      rw [stateAt_succ hbi hline hof, stateAt_succ (hab.trans hbi) hline hof]
      exact pending_codexRowStep ih

theorem isSome_later (hab : a ≤ b) (hbi : b ≤ i)
    (h : (codexRowStep legacy (stateAt parse (codexRowStep legacy) .empty lines a i) text line).2.isSome) :
    (codexRowStep legacy (stateAt parse (codexRowStep legacy) .empty lines b i) text line).2.isSome := by
  obtain ⟨htakes, hkey⟩ := isSome_codexRowStep.mp h
  refine isSome_codexRowStep.mpr ⟨?_, hkey⟩
  by_contra hb
  have hpending : (stateAt parse (codexRowStep legacy) .empty lines b i).pending ⊆
      (stateAt parse (codexRowStep legacy) .empty lines a i).pending := pending_stateAt hab hbi
  have ha := CodexState.takes_of_subset hpending (Bool.not_eq_false _ ▸ hb)
  simp [ha] at htakes

theorem codexId_succ_ne (key : String) (n : Nat) : codexId key (n + 1) ≠ codexId key 0 := by
  intro h
  have hlength := congrArg String.length h
  simp only [codexId, if_neg (Nat.succ_ne_zero n), if_pos, String.length_append] at hlength
  have htilde : "~".length = 1 := rfl
  omega

/-- Codex's ids are stable exactly when the rows that show something have different keys. -/
theorem stable_codexIdAt (legacy : List Char → Option (List Char × Bool)) (parse : List Char → LogLine CodexLine)
    (lines : List (List Char)) : Windows.Stable (codexIdAt legacy parse lines) ↔ CodexKeysApart legacy parse
      lines := by
  have hlater (a b i : Nat) (hab : a ≤ b) (hbi : b ≤ i)
      (h : (entryIdAt parse (codexRowStep legacy) .empty lines a i).isSome) :
      (entryIdAt parse (codexRowStep legacy) .empty lines b i).isSome := by
    obtain ⟨-, text, line, htext, hline, hsome⟩ := isSome_entryIdAt.mp h
    exact isSome_entryIdAt.mpr ⟨hbi, text, line, htext, hline, isSome_later hab hbi hsome⟩
  have hstable := stable_entryIds parse lines (codexRowStep legacy) .empty (fun _ _ => True) CodexState.seen
    (fun _ line => (line.key? legacy).getD "") (fun s text line => (codexRowStep legacy s text line).2.isSome) codexId
    (fun _ _ _ _ h => h) rfl (fun s text line => seen_codexRowStep s text line)
    (fun s a i text line e _ _ _ he => uuid_codexRowStep he) hlater
    (fun a b j text line hab hbj _ _ h => isSome_later hab hbj h) (fun k k' h => h) codexId_succ_ne
  -- a row that shows something gets an entry in the window that begins with it
  have hown (i : Nat) : (entryIdAt parse (codexRowStep legacy) .empty lines i i).isSome ↔
      ∃ k, (rowAt parse lines i).bind (·.key? legacy) = some k := by
    rw [isSome_entryIdAt, stateAt, Windows.after_of_le (Nat.le_refl i)]
    simp only [isSome_codexRowStep]
    simp only [le_refl, true_and, Option.bind_eq_some_iff, rowAt_eq_some, Option.isSome_iff_exists]
    constructor
    · rintro ⟨text, line, htext, hline, -, k, hk⟩
      exact ⟨k, line, ⟨text, htext, hline⟩, hk⟩
    · rintro ⟨k, line, ⟨text, htext, hline⟩, hk⟩
      exact ⟨text, line, htext, hline, by simp [CodexState.takes, CodexState.empty], k, hk⟩
  have hkeyAt {i : Nat} {k : String} (h : (rowAt parse lines i).bind (·.key? legacy) = some k) :
      keyAt parse (fun _ line => (line.key? legacy).getD "") lines i = k := by
    obtain ⟨line, hrow, hk⟩ := Option.bind_eq_some_iff.mp h
    obtain ⟨text, htext, hline⟩ := rowAt_eq_some.mp hrow
    rw [keyAt_eq htext hline, hk, Option.getD_some]
  simp only [if_true] at hstable
  refine hstable.trans ?_
  constructor
  · intro h j i k hji hj hi
    exact (h j i hji (by rw [hkeyAt hj, hkeyAt hi])).1 ⟨(hown j).mpr ⟨k, hj⟩, (hown i).mpr ⟨k, hi⟩⟩
  · intro h j i hji hkeys
    have hapart (hj : (entryIdAt parse (codexRowStep legacy) .empty lines j j).isSome)
        (hi : (entryIdAt parse (codexRowStep legacy) .empty lines i i).isSome) : False := by
      obtain ⟨k, hj⟩ := (hown j).mp hj
      obtain ⟨k', hi⟩ := (hown i).mp hi
      rw [hkeyAt hj, hkeyAt hi] at hkeys
      exact h j i k hji hj (hkeys ▸ hi)
    constructor
    · rintro ⟨hj, hi⟩
      exact hapart hj hi
    · rintro ⟨⟨text, line, htext, hline, hdraws⟩, hi⟩
      refine hapart (isSome_entryIdAt.mpr ⟨le_refl j, text, line, htext, hline, ?_⟩)
        (hlater j i i (Nat.le_of_lt hji) (le_refl i) hi)
      rwa [stateAt, Windows.after_of_le (Nat.le_refl j)]

end Sightr
