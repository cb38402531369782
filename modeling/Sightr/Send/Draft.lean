import Sightr.Lib.JsText

/-!
# Draft evidence

`draftCarriesSend` of `shared/harness/guarded-send.ts`: whether the draft an input box shows is evidence
that a text landed there. Texts are lists of code points; `graphemes` is the engine's `Intl.Segmenter`,
none where it has none.
-/

namespace Sightr

open JsText

/-- Minimum visible characters that must match before we believe the input box holds our text. -/
def MIN_MATCH_CHARS : Nat := 8

def isDefaultIgnorable (c : Char) : Bool :=
  let n := c.toNat
  n = 0xAD || n = 0x34F || n = 0x61C || n = 0x115F || n = 0x1160 || n = 0x17B4 || n = 0x17B5 ||
    (0x180B ≤ n && n ≤ 0x180F) || (0x200B ≤ n && n ≤ 0x200F) || (0x202A ≤ n && n ≤ 0x202E) ||
    (0x2060 ≤ n && n ≤ 0x206F) || n = 0x3164 || (0xFE00 ≤ n && n ≤ 0xFE0F) || n = 0xFEFF ||
    n = 0xFFA0 || (0xFFF0 ≤ n && n ≤ 0xFFF8) || (0x1BCA0 ≤ n && n ≤ 0x1BCA3) ||
    (0x1D173 ≤ n && n ≤ 0x1D17A) || (0xE0000 ≤ n && n ≤ 0xE0FFF)

def isUnreadable (cluster : List Char) : Bool := cluster.all fun c => isSpace c || isDefaultIgnorable c

abbrev Graphemes := Option (List Char → List (List Char))

def visibleLength (graphemes : Graphemes) (s : List Char) : Nat :=
  match graphemes with
  | none => s.countP fun c => !isUnreadable [c]
  | some segment => (segment s).countP fun cluster => !isUnreadable cluster

/-- Every offset where one visible character ends and the next begins, plus both ends. -/
def characterBoundaries (graphemes : Graphemes) (s : List Char) : List Nat :=
  match graphemes with
  | none => List.range (s.length + 1)
  | some segment => s.length :: ((segment s).map List.length).scanl (· + ·) 0

/-- A piece of the pattern: text that must stand there, or a gap the box's fold may have made. -/
inductive Piece
  | exact (text : List Char)
  | seam
  deriving DecidableEq

def draftParts (draft : List Char) : List (List Char) := (trim draft).splitBy fun a b => isSpace a = isSpace b

/-- One plain space may stand for any gap or for none; every other gap must be there verbatim. -/
def draftPattern (parts : List (List Char)) : List Piece :=
  parts.zipIdx.map fun (part, i) => if i % 2 = 1 && part = [' '] then .seam else .exact part

/-- How long a match of the pattern at the start of the text is. -/
def matchLength : List Piece → List Char → Option Nat
  | [], _ => some 0
  | .exact text :: pieces, s =>
    if text.isPrefixOf s then (matchLength pieces (s.drop text.length)).map (text.length + ·)
    else none
  | .seam :: pieces, s =>
    let gap := (s.takeWhile isSpace).length
    (matchLength pieces (s.drop gap)).map (gap + ·)

/-- Is the input box's visible draft evidence that `sent` landed there? -/
def draftCarriesSend (graphemes : Graphemes) (sent : String) : Option String → Bool
  | none => false
  | some draft =>
    let parts := draftParts draft.toList
    let runs := (parts.zipIdx.filter fun part => part.2 % 2 = 0).map (·.1)
    let visible := (runs.map (visibleLength graphemes)).sum
    let bounds := characterBoundaries graphemes sent.toList
    !parts.isEmpty && min (visibleLength graphemes sent.toList) MIN_MATCH_CHARS ≤ visible &&
      (List.range (sent.toList.length + 1)).any fun start =>
        match matchLength (draftPattern parts) (sent.toList.drop start) with
        | none => false
        | some length => bounds.contains start && bounds.contains (start + length)

example : draftCarriesSend none "これは pull request です" (some "これは pull req uest です") = true := by
  decide

example : draftCarriesSend none "delete file" (some "delete  file") = false := by decide

end Sightr
