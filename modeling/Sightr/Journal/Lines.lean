import Sightr.Journal.Claude
import Sightr.Lib.Windows

/-!
# Logs read line by line

What the parsers of `bridge/journal` share that take their ids from the rows: a log is its lines, blank lines
and lines that do not parse are skipped, and a parse may begin at any line. `JSON.parse` is a parameter, which
answers with the fields the parser reads.
-/

namespace Sightr

open JsText

/-- A line as `JSON.parse` reads it. A row that is `null` has no fields to look at. -/
inductive LogLine (ρ : Type)
  | unparsed
  | null
  | row (row : ρ)
  deriving DecidableEq

/-- The text before each line break, and after the last. -/
def splitLines (text : List Char) : List (List Char) := text.splitOn '\n'

section Parsing

variable {ρ σ : Type} (parse : List Char → LogLine ρ) (step : σ → List Char → ρ → σ × Option TranscriptEntry)

def rowOf (line : List Char) : Option ρ :=
  if (trim line).isEmpty then none
  else
    match parse line with
    | .row row => some row
    | _ => none

def rowThrows (line : List Char) : Bool :=
  !(trim line).isEmpty &&
    match parse line with
    | .null => true
    | _ => false

def lineStep (s : σ) (line : List Char) : σ × Option TranscriptEntry :=
  match rowOf parse line with
  | some row => step s line row
  | none => (s, none)

def rowAt (lines : List (List Char)) (i : Nat) : Option ρ := lines[i]?.bind (rowOf parse)

def ReadsFrom (lines : List (List Char)) (a : Nat) : Prop := (lines.drop a).any (rowThrows parse) = false

instance (lines : List (List Char)) (a : Nat) : Decidable (ReadsFrom parse lines a) :=
  inferInstanceAs (Decidable (_ = _))

def parseLines (init : σ) (text : List Char) : Option (List TranscriptEntry) :=
  let lines := splitLines text
  if ReadsFrom parse lines 0 then some (Windows.entries (lineStep parse step) init lines) else none

/-- The id of the entry that line `i` gets when the log is parsed from line `a` on. -/
def entryIdAt (init : σ) (lines : List (List Char)) (a i : Nat) : Option String :=
  (Windows.entryAt (lineStep parse step) init lines a i).map (·.uuid)

end Parsing

def textHash (units : List Nat) : String := base36 (units.foldl (fun hash unit => (hash * 33 + unit) % 2 ^ 32) 5381)

def lineHash (lines : List (List Char)) (i : Nat) : String := textHash (codeUnits (lines.getD i []))

variable {ρ σ : Type} {parse : List Char → LogLine ρ} {lines : List (List Char)}

variable {i : Nat}

theorem rowAt_eq_some {row : ρ} :
    rowAt parse lines i = some row ↔ ∃ line, lines[i]? = some line ∧ rowOf parse line = some row :=
  Option.bind_eq_some_iff

theorem ReadsFrom.later {a b : Nat} (h : a ≤ b) (hreads : ReadsFrom parse lines a) : ReadsFrom parse lines b := by
  obtain ⟨k, rfl⟩ := Nat.exists_eq_add_of_le h
  rw [ReadsFrom, List.any_eq_false] at *
  intro line hline
  rw [← List.drop_drop] at hline
  exact hreads line (List.mem_of_mem_drop hline)

variable {before : List Char}

theorem splitLines_of_line_start (window : List Char) (h : before = [] ∨ ∃ head, before = head ++ ['\n']) :
    ∃ a, splitLines window = (splitLines (before ++ window)).drop a := by
  rcases h with rfl | ⟨head, rfl⟩
  · exact ⟨0, rfl⟩
  · refine ⟨(splitLines head).length, ?_⟩
    rw [List.append_assoc, List.singleton_append, splitLines, splitLines, splitLines, List.splitOn_append_cons_self,
      List.drop_left]

/-- The parse of a text that starts at a line start of another: the entries its lines get from some line on. -/
theorem parseLines_window {step : σ → List Char → ρ → σ × Option TranscriptEntry} {init : σ} {window : List Char}
    (h : before = [] ∨ ∃ head, before = head ++ ['\n']) :
    ∃ a, parseLines parse step init window = let lines := splitLines (before ++ window)
      if ReadsFrom parse lines a then
        some ((List.range (lines.length - a)).filterMap fun i =>
          Windows.entryAt (lineStep parse step) init lines a (a + i))
      else none := by
  obtain ⟨a, ha⟩ := splitLines_of_line_start window h
  have hreads (lines : List (List Char)) : ReadsFrom parse (lines.drop a) 0 ↔ ReadsFrom parse lines a := by
    rw [ReadsFrom, ReadsFrom, List.drop_zero]
  exact ⟨a, by simp only [parseLines, ha, hreads, Windows.entries_drop]⟩

theorem isSome_rowAt :
    (rowAt parse lines i).isSome ↔ ∃ line row, lines[i]? = some line ∧ rowOf parse line = some row := by
  simp only [Option.isSome_iff_exists, rowAt_eq_some]
  exact exists_comm

theorem lineHash_of_getElem? {line : List Char} (h : lines[i]? = some line) :
    lineHash lines i = textHash (codeUnits line) := by
  rw [lineHash, List.getD_eq_getElem?_getD, h, Option.getD_some]

section Names

variable {step : σ → List Char → ρ → σ × Option TranscriptEntry} {init : σ}

/-- The state a parse from line `a` on reads line `i` in. -/
abbrev stateAt (parse : List Char → LogLine ρ) (step : σ → List Char → ρ → σ × Option TranscriptEntry)
    (init : σ) (lines : List (List Char)) (a i : Nat) : σ :=
  Windows.after (lineStep parse step) init ((lines.take i).drop a)

variable {a i : Nat}

theorem entryIdAt_eq_some {id : String} :
    entryIdAt parse step init lines a i = some id ↔ a ≤ i ∧ ∃ line row e, lines[i]? = some line ∧
      rowOf parse line = some row ∧ (step (stateAt parse step init lines a i) line row).2 = some e ∧ e.uuid = id := by
  simp only [entryIdAt, Option.map_eq_some_iff, Windows.entryAt_eq_some]
  constructor
  · rintro ⟨e, ⟨hai, line, hline, he⟩, rfl⟩
    cases hrow : rowOf parse line with
    | none => simp [lineStep, hrow] at he
    | some row => exact ⟨hai, line, row, e, hline, hrow, by simpa only [lineStep, hrow] using he, rfl⟩
  · rintro ⟨hai, line, row, e, hline, hrow, he, rfl⟩
    exact ⟨e, ⟨hai, line, hline, by simpa only [lineStep, hrow] using he⟩, rfl⟩

theorem isSome_entryIdAt :
    (entryIdAt parse step init lines a i).isSome ↔ a ≤ i ∧ ∃ line row, lines[i]? = some line ∧
      rowOf parse line = some row ∧ (step (stateAt parse step init lines a i) line row).2.isSome := by
  simp only [Option.isSome_iff_exists, entryIdAt_eq_some]
  constructor
  · rintro ⟨id, hai, line, row, e, hline, hrow, he, -⟩
    exact ⟨hai, line, row, hline, hrow, e, he⟩
  · rintro ⟨hai, line, row, hline, hrow, e, he⟩
    exact ⟨e.uuid, hai, line, row, e, hline, hrow, he, rfl⟩

variable {line : List Char} {row : ρ}

theorem stateAt_succ (h : a ≤ i) (hline : lines[i]? = some line) (hrow : rowOf parse line = some row) :
    stateAt parse step init lines a (i + 1) = (step (stateAt parse step init lines a i) line row).1 := by
  rw [stateAt, Windows.after_succ h hline, lineStep, hrow]

theorem stateAt_succ_of_none (hrow : rowAt parse lines i = none) :
    stateAt parse step init lines a (i + 1) = stateAt parse step init lines a i := by
  rcases Nat.lt_or_ge i a with hia | hai
  · rw [stateAt, stateAt, Windows.after_of_le hia, Windows.after_of_le (Nat.le_of_lt hia)]
  · cases hline : lines[i]? with
    | none => exact Windows.after_succ_of_none hline
    | some line =>
      have hnone : rowOf parse line = none := by simpa [rowAt, hline] using hrow
      rw [stateAt, Windows.after_succ hai hline, lineStep, hnone]

/-- The key of line `i`, when the adapter's ids are made of the key of a line and its row. -/
def keyAt (parse : List Char → LogLine ρ) (key : List Char → ρ →
      String) (lines : List (List Char)) (i : Nat) : String :=
  (lines[i]?.bind fun line => (rowOf parse line).map (key line)).getD ""

theorem keyAt_eq {key : List Char → ρ → String} (hline : lines[i]? = some line) (hrow : rowOf parse line = some row) :
    keyAt parse key lines i = key line row := by
  simp [keyAt, hline, hrow]

theorem keyAt_textHash (h : (rowAt parse lines i).isSome) :
    keyAt parse (fun line _ => textHash (codeUnits line)) lines i = lineHash lines i := by
  obtain ⟨line, row, hline, hrow⟩ := isSome_rowAt.mp h
  rw [keyAt_eq hline hrow, lineHash_of_getElem? hline]

variable (parse lines step init) in
/-- Ids made of a key and of how often the parse has drawn it are stable exactly when rows that get one have
different keys and no row from which the log can be read on draws the key before. -/
theorem stable_entryIds (named : Nat → Nat → Prop) [∀ a i, Decidable (named a i)] (seen : σ → List String)
    (key : List Char → ρ → String) (draws : σ → List Char → ρ → Bool) (render : String → Nat → String)
    (hnamed : ∀ a b i, a ≤ b → named a i → named b i) (hinit : seen init = [])
    (hseen : ∀ s line row, seen (step s line row).1 = (if draws s line row then [key line row] else []) ++ seen s)
    (hid : ∀ s a i line row e, named a i → lines[i]? = some line → rowOf parse line = some row →
      (step s line row).2 = some e → e.uuid = render (key line row) ((seen s).count (key line row)))
    (hlater : ∀ a b i, a ≤ b → b ≤ i → (entryIdAt parse step init lines a i).isSome →
      (entryIdAt parse step init lines b i).isSome)
    (hdraws : ∀ a b j line row, a ≤ b → b ≤ j → lines[j]? = some line → rowOf parse line = some row →
      draws (stateAt parse step init lines a j) line row = true →
      draws (stateAt parse step init lines b j) line row = true)
    (hrender : ∀ k k', render k 0 = render k' 0 → k = k') (hfirst : ∀ k n, render k (n + 1) ≠ render k 0) :
    let name a i := if named a i then entryIdAt parse step init lines a i else none
    Windows.Stable name ↔ ∀ j i, j < i → keyAt parse key lines j = keyAt parse key lines i →
      ¬ ((name j j).isSome ∧ (name i i).isSome) ∧
      ¬ ((∃ line row, lines[j]? = some line ∧ rowOf parse line = some row ∧ draws init line row = true) ∧
        (name j i).isSome) := by
  intro name
  have hsome {a i : Nat} : (name a i).isSome ↔ named a i ∧ (entryIdAt parse step init lines a i).isSome := by
    by_cases h : named a i <;> simp [name, h]
  have hstart (j : Nat) : stateAt parse step init lines j j = init := Windows.after_of_le (Nat.le_refl j)
  have hnumber (a i : Nat) : (seen (stateAt parse step init lines a i)).count (keyAt parse key lines i) = 0 ↔
      ∀ j, a ≤ j → j < i → (∃ line row, lines[j]? = some line ∧ rowOf parse line = some row ∧
          draws (stateAt parse step init lines a j) line row = true) →
        keyAt parse key lines j ≠ keyAt parse key lines i := by
    rw [List.count_eq_zero, stateAt, Windows.mem_after seen (fun s line => match rowOf parse line with
        | some row => if draws s line row then [key line row] else []
        | none => []) hinit (fun s line => by
          cases hrow : rowOf parse line with
          | none => simp [lineStep, hrow]
          | some row => simp only [lineStep, hrow, hseen])]
    constructor
    · rintro h j haj hji ⟨line, row, hline, hrow, hdraw⟩ hkey
      refine h ⟨j, line, haj, hji, hline, ?_⟩
      rw [keyAt_eq hline hrow] at hkey
      simp only [hrow]
      rw [if_pos hdraw, ← hkey]
      exact List.mem_singleton_self _
    · rintro h ⟨j, line, haj, hji, hline, hmem⟩
      cases hrow : rowOf parse line with
      | none => simp [hrow] at hmem
      | some row =>
        simp only [hrow] at hmem
        split at hmem
        · rename_i hdraw
          refine h j haj hji ⟨line, row, hline, hrow, hdraw⟩ ?_
          rw [keyAt_eq hline hrow]
          exact (List.mem_singleton.mp hmem).symm
        · cases hmem
  have hstable := Windows.stable_iff name (keyAt parse key lines)
    (fun a j => ∃ line row, lines[j]? = some line ∧ rowOf parse line = some row ∧
      draws (stateAt parse step init lines a j) line row = true)
    (fun a i => (seen (stateAt parse step init lines a i)).count (keyAt parse key lines i)) render
    (fun a i u hu => by
      by_cases h : named a i
      · simp only [name, if_pos h] at hu
        obtain ⟨hai, line, row, e, hline, hrow, he, rfl⟩ := entryIdAt_eq_some.mp hu
        exact ⟨hai, by rw [keyAt_eq hline hrow]; exact hid _ a i line row e h hline hrow he⟩
      · simp [name, if_neg h] at hu)
    (fun a b i hab hbi h => by
      obtain ⟨hn, hentry⟩ := hsome.mp h
      exact hsome.mpr ⟨hnamed a b i hab hn, hlater a b i hab hbi hentry⟩)
    (fun a b j hab hbj ⟨line, row, hline, hrow, hdraw⟩ =>
      ⟨line, row, hline, hrow, hdraws a b j line row hab hbj hline hrow hdraw⟩)
    hnumber hrender hfirst
  simpa only [hstart] using hstable

end Names

end Sightr
