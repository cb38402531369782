import Sightr.Git.Output

/-!
# Review patches cut at a cap

A patch that is too long is cut inside its bytes, and what is shown of it ends at the last place where a reader can
stop: just before a later hunk or file. A new file that git does not know gets a patch made up from its text.
-/

namespace Sightr.ReviewPatch

open JsText Separated Git Files

def diffMark : Text := "diff --git ".toList
def hunkMark : Text := "@@ ".toList

def isDiff (line : Text) : Bool := startsWith diffMark line
def isHunk (line : Text) : Bool := startsWith hunkMark line

/-! ### The cut -/

/-- The scan of a cut patch, line by line; places are counted in code points, in the source in UTF-16 units. -/
structure Scan where
  hunksInFile : Nat := 0
  keep : Int := -1
  offset : Nat := 0

def scanLine (s : Scan) (line : Text) : Scan :=
  let s :=
    if 0 < s.offset ∧ isDiff line ∧ 0 < s.hunksInFile then { s with keep := s.offset, hunksInFile := 0 }
    else if 0 < s.offset ∧ isHunk line ∧ 0 < s.hunksInFile then { s with keep := s.offset }
    else s
  let s := if isDiff line then { s with hunksInFile := 0 } else s
  let s := if isHunk line then { s with hunksInFile := s.hunksInFile + 1 } else s
  { s with offset := s.offset + (line.length + 1) }

structure Hunk where
  header : Text
  body : List Text
  header_spec : isHunk header = true ∧ '\n' ∉ header
  body_spec : ∀ line ∈ body, (∃ c ∈ [' ', '+', '-', '\\'], line.head? = some c) ∧ '\n' ∉ line

structure FilePatch where
  header : Text
  more : List Text
  hunks : List Hunk
  header_spec : isDiff header = true ∧ '\n' ∉ header
  more_spec : ∀ line ∈ more, isDiff line = false ∧ isHunk line = false ∧ '\n' ∉ line

def Hunk.lines (h : Hunk) : List Text := h.header :: h.body

def FilePatch.lines (f : FilePatch) : List Text := f.header :: (f.more ++ f.hunks.flatMap Hunk.lines)

def patchLines (files : List FilePatch) : List Text := files.flatMap FilePatch.lines

/-- The lines before a clean place and the header line after it: whole files, and a file with at least one of its
hunks, in front of the next hunk or of the next file. -/
inductive CutsAt (files : List FilePatch) : List Text → Text → Prop
  | hunk {before : List FilePatch} {f : FilePatch} {after : List FilePatch} {done : List Hunk} {next : Hunk}
      {later : List Hunk} (hfiles : files = before ++ f :: after) (hhunks : f.hunks = done ++ next :: later)
      (hdone : done ≠ []) :
      CutsAt files (patchLines before ++ f.header :: (f.more ++ done.flatMap Hunk.lines)) next.header
  | file {before : List FilePatch} {f next : FilePatch} {after : List FilePatch}
      (hfiles : files = before ++ f :: next :: after) (hhunks : f.hunks ≠ []) :
      CutsAt files (patchLines before ++ f.lines) next.header

/-! ### The scan -/

variable (n : Nat)

/-- One line's share in the count of the last file's hunks. -/
def countLine (line : Text) : Nat := if isDiff line then 0 else if isHunk line then n + 1 else n

def openHunks (lines : List Text) : Nat := lines.foldl countLine 0

variable {line : Text}

theorem not_isHunk_of_isDiff (h : isDiff line = true) : isHunk line = false := by
  obtain ⟨rest, rfl⟩ := List.isPrefixOf_iff_prefix.mp h
  rfl

variable {mark : Text}

theorem openHunks_append_singleton (lines : List Text) (line : Text) :
    openHunks (lines ++ [line]) = countLine (openHunks lines) line := by
  rw [openHunks, List.foldl_append, List.foldl_cons, List.foldl_nil, ← openHunks]

/-- A header line at which the scan keeps what stands before it. -/
def KeepsAt (lines front : List Text) : Prop :=
  ∃ line back, lines = front ++ line :: back ∧ (isDiff line = true ∨ isHunk line = true) ∧ 0 < openHunks front

variable {lines front : List Text}

theorem keepsAt_append_singleton : KeepsAt (lines ++ [line]) front ↔ KeepsAt lines front ∨
      (front = lines ∧ (isDiff line = true ∨ isHunk line = true) ∧ 0 < openHunks lines) := by
  constructor
  · rintro ⟨other, back, heq, hheader, hpos⟩
    obtain rfl | ⟨back, last, rfl⟩ := List.eq_nil_or_concat' back
    · obtain ⟨rfl, hline⟩ := List.append_inj' heq rfl
      obtain rfl := List.singleton_inj.mp hline
      exact .inr ⟨rfl, hheader, hpos⟩
    · rw [← List.cons_append, ← List.append_assoc] at heq
      exact .inl ⟨other, back, (List.append_inj' heq rfl).1, hheader, hpos⟩
  · rintro (⟨other, back, rfl, hheader, hpos⟩ | ⟨rfl, hheader, hpos⟩)
    · exact ⟨other, back ++ [line], by rw [List.append_assoc, List.cons_append], hheader, hpos⟩
    · exact ⟨line, [], rfl, hheader, hpos⟩

theorem offset_pos_of_openHunks (h : 0 < openHunks lines) : 0 < (terminated '\n' lines).length := by
  cases lines with
  | nil => cases h
  | cons line lines => simp

structure Scanned (lines : List Text) (s : Scan) : Prop where
  offset_eq : s.offset = (terminated '\n' lines).length
  hunks_eq : s.hunksInFile = openHunks lines
  keep_eq : (s.keep = -1 ∧ ∀ front, ¬KeepsAt lines front) ∨
    ∃ front, KeepsAt lines front ∧ s.keep = (terminated '\n' front).length

theorem scanLine_eq (s : Scan) (line : Text) : scanLine s line =
    { hunksInFile := if isDiff line then 0 else if isHunk line then s.hunksInFile + 1 else s.hunksInFile
      keep :=
        if (isDiff line = true ∨ isHunk line = true) ∧ 0 < s.offset ∧ 0 < s.hunksInFile then s.offset else s.keep
      offset := s.offset + (line.length + 1) } := by
  cases hd : isDiff line with
  | true => by_cases h : 0 < s.offset ∧ 0 < s.hunksInFile <;> simp [scanLine, hd, not_isHunk_of_isDiff hd, h]
  | false =>
    cases hh : isHunk line with
    | true => by_cases h : 0 < s.offset ∧ 0 < s.hunksInFile <;> simp [scanLine, hd, hh, h]
    | false => simp [scanLine, hd, hh]

theorem Scanned.step {s : Scan} (h : Scanned lines s) (line : Text) :
    Scanned (lines ++ [line]) (scanLine s line) := by
  rw [scanLine_eq]
  refine ⟨?_, ?_, ?_⟩
  · rw [terminated_append, List.length_append, h.offset_eq, terminated_cons, terminated_nil, List.length_append,
      List.length_singleton]
  · rw [openHunks_append_singleton, ← h.hunks_eq, countLine]
  · dsimp only
    split_ifs with hkeeps
    · have hat := keepsAt_append_singleton.mpr (.inr ⟨rfl, hkeeps.1, h.hunks_eq ▸ hkeeps.2.2⟩)
      exact .inr ⟨lines, hat, by rw [h.offset_eq]⟩
    · obtain ⟨hkeep, hnone⟩ | ⟨front, hat, hkeep⟩ := h.keep_eq
      · refine .inl ⟨hkeep, fun front hat => ?_⟩
        obtain hat | ⟨rfl, hheader, hpos⟩ := keepsAt_append_singleton.mp hat
        · exact hnone front hat
        · have hoffset := h.offset_eq ▸ offset_pos_of_openHunks hpos
          exact hkeeps ⟨hheader, hoffset, h.hunks_eq ▸ hpos⟩
      · exact .inr ⟨front, keepsAt_append_singleton.mpr (.inl hat), hkeep⟩

variable {text : Text}

theorem CutsAt.cons {files : List FilePatch} {front : List Text} {header : Text} (h : CutsAt files front header)
    (f : FilePatch) : CutsAt (f :: files) (f.lines ++ front) header := by
  have hlines (before : List FilePatch) (rest : List Text) :
      f.lines ++ (patchLines before ++ rest) = patchLines (f :: before) ++ rest := by
    rw [patchLines, patchLines, List.flatMap_cons, List.append_assoc]
  cases h with
  | hunk hfiles hhunks hdone =>
    rw [hlines]
    exact .hunk (by rw [hfiles, List.cons_append]) hhunks hdone
  | file hfiles hhunks =>
    rw [hlines]
    exact .file (by rw [hfiles, List.cons_append]) hhunks

variable {back : List Text}

variable {files : List FilePatch}

variable {p s : Text}

variable {cap : Nat}

section

variable (h : text.head? ≠ some '\uFEFF')
include h

end

def ESCAPE_BY_CHARACTER : Char → Option Text
  | '"' => some ['\\', '"']
  | '\\' => some ['\\', '\\']
  | '\x07' => some ['\\', 'a']
  | '\x08' => some ['\\', 'b']
  | '\t' => some ['\\', 't']
  | '\n' => some ['\\', 'n']
  | '\x0b' => some ['\\', 'v']
  | '\x0c' => some ['\\', 'f']
  | '\r' => some ['\\', 'r']
  | _ => none

/-- What a character that git quotes is written as: its own escape, or its code in octal. -/
def escapeOf (character : Char) : Option Text :=
  match ESCAPE_BY_CHARACTER character with
  | some escape => some escape
  | none =>
    if character.toNat < 0x20 ∨ character.toNat = 0x7f then
      some ('\\' :: (Nat.toDigits 8 character.toNat).leftpad 3 '0')
    else none

variable (path : Text)

def quoteGitPatchPath : Text :=
  if path.any fun character => (escapeOf character).isSome then
    '"' :: (path.flatMap fun character => (escapeOf character).getD [character]) ++ ['"']
  else path

def readLines (patch : Text) : Option (List Text) :=
  let lines := patch.splitOn '\n'
  if lines.getLast? = some [] then some lines.dropLast else none

def newLine : Text := "+++ ".toList ++ quoteGitPatchPath ("b/".toList ++ path)

variable (count : Nat)

end Sightr.ReviewPatch
