import Mathlib.Data.Nat.Digits.Defs

/-!
# JavaScript's string functions

The few string functions of JavaScript that the modelled code reads with, over lists of code points:
white space, trimming, the text between two markers, UTF-16 code units and base 36.

## Main definitions

* `JsText.isSpace`, `JsText.trim`: a regular expression's `\s`, which is also what `trim` removes.
* `JsText.cut`, `JsText.between`: the text around a marker's first occurrence.
* `JsText.codeUnits`: what `charCodeAt` and `slice` count in.
* `JsText.utf8Bytes`: what `TextEncoder` counts in.
-/

namespace JsText

/-- A regular expression's `\s`, which is also what `trim` removes. -/
def isSpace (c : Char) : Bool :=
  let n := c.toNat
  (9 ≤ n && n ≤ 13) || n = 0x20 || n = 0xA0 || n = 0x1680 || (0x2000 ≤ n && n ≤ 0x200A) ||
    n = 0x2028 || n = 0x2029 || n = 0x202F || n = 0x205F || n = 0x3000 || n = 0xFEFF

variable (s : List Char)

def trimStart : List Char := s.dropWhile isSpace

def trimEnd : List Char := (s.reverse.dropWhile isSpace).reverse

def trim : List Char := trimEnd (trimStart s)

def startsWith (marker s : List Char) : Bool := marker.isPrefixOf s

/-- The text before and after the marker's first occurrence. -/
def cut (marker : List Char) : List Char → Option (List Char × List Char)
  | [] => if marker.isEmpty then some ([], []) else none
  | c :: s =>
    if startsWith marker (c :: s) then some ([], (c :: s).drop marker.length)
    else (cut marker s).map fun (before, after) => (c :: before, after)

/-- The text between the first occurrence of one marker and the next of another. -/
def between (opening closing s : List Char) : Option (List Char) := do
  let (_, rest) ← cut opening s
  let (inside, _) ← cut closing rest
  return inside

def codeUnits : List Nat :=
  s.flatMap fun c =>
    let n := c.toNat
    if n < 0x10000 then [n]
    else [0xD800 + (n - 0x10000) / 0x400, 0xDC00 + (n - 0x10000) % 0x400]

def utf8Bytes : Nat := (s.map Char.utf8Size).sum

@[simp] theorem utf8Bytes_append (s t : List Char) : utf8Bytes (s ++ t) = utf8Bytes s + utf8Bytes t := by
  simp [utf8Bytes]

/-- `toLowerCase`, as far as the result is ASCII. -/
def asciiLowerCase : List Char :=
  s.flatMap fun c =>
    if c.toNat = 0x212A then ['k'] else if c.toNat = 0x130 then ['i', Char.ofNat 0x307] else [c.toLower]

/-- A regular expression's `.`: anything but a line terminator. -/
def isInLine (c : Char) : Bool := c ≠ '\n' && c ≠ '\r' && c.toNat ≠ 0x2028 && c.toNat ≠ 0x2029

def natText (n : Nat) : List Char := (toString n).toList

theorem natText_eq (n : Nat) : natText n = Nat.toDigits 10 n := by
  rw [natText, Nat.toString_eq_repr, Nat.toList_repr]

theorem isDigit_of_mem_natText {n : Nat} {c : Char} (h : c ∈ natText n) : c.isDigit = true :=
  Nat.isDigit_of_mem_toDigits (by decide) (by decide) (natText_eq n ▸ h)

/-- A number's text has digits and a minus sign at most. -/
theorem isDigit_of_mem_toString {n : Int} {c : Char} (h : c ∈ (toString n).toList) : c.isDigit = true ∨ c = '-' := by
  cases n with
  | ofNat n => exact .inl (isDigit_of_mem_natText h)
  | negSucc n =>
    have hminus : (toString (Int.negSucc n)).toList = '-' :: natText (n + 1) := by
      rw [natText, Int.toString_eq_repr, Int.repr]
      simp [Nat.toString_eq_repr]
    rw [hminus] at h
    obtain rfl | h := List.mem_cons.mp h
    · exact .inr rfl
    · exact .inl (isDigit_of_mem_natText h)

/-- `n.toString(36)`. -/
def base36 (n : Nat) : String :=
  let alphabet := "0123456789abcdefghijklmnopqrstuvwxyz".toList
  if n = 0 then "0"
  else String.ofList ((Nat.digits 36 n).reverse.map fun d => alphabet.getD d '0')

end JsText
