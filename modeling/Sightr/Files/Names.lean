import Sightr.Lib.JsText

/-!
# The names the Files tab refuses

`isRefusedName` and `parseRelPath` of `bridge/workdir.ts` and `isHiddenPath` of `bridge/workdir-git.ts`, over
lists of code points.
-/

namespace Sightr.Files

open JsText

abbrev Name := List Char

/-- Paths, as lists of names, are compared by their equality. -/
instance : LawfulBEq (List Name) := inferInstance

/-- A path as `git` and the requests write it, its segments separated by `/`. -/
abbrev PathText := List Char

def refusedNames : List Name :=
  ["node_modules", "config", "__pycache__", "venv", "target", "vendor", "adws", "thumbs.db", "desktop.ini"].map
    String.toList

def keyExtensions : List Name := [".pem", ".key", ".pfx", ".p12", ".kdbx", ".keystore", ".jks"].map String.toList

def keyNames : List Name := ["id_rsa", "id_ecdsa", "id_ed25519"].map String.toList

def isRefusedName (name : Name) : Bool :=
  if startsWith ['.'] name then true
  else if refusedNames.contains (asciiLowerCase name) then true
  else keyExtensions.any (·.isSuffixOf (name.map Char.toLower)) || keyNames.any (startsWith · (name.map Char.toLower))

/-- Does the segment hold the tail of an 8.3 short name, a tilde and a digit? -/
def isShortName : Name → Bool
  | '~' :: d :: rest => d.isDigit || isShortName (d :: rest)
  | _ :: rest => isShortName rest
  | [] => false

/-- A path the refusal list hides, by any of its segments. -/
def isHiddenPath (windows : Bool) (path : PathText) : Bool :=
  (path.splitOn '/').any fun seg => !seg.isEmpty && (isRefusedName seg || (windows && isShortName seg))

/-! ### The paths of requests -/

/-- A character no path of a request may hold: a control character or a backslash. -/
def isControl (c : Char) : Bool := c.toNat ≤ 0x1F || c = '\\'

def hasDrive : PathText → Bool
  | c :: ':' :: _ => c.isAlpha
  | _ => false

def isProperName (p : Name) : Bool :=
  !p.isEmpty && p ≠ ['.'] && p ≠ ['.', '.'] && !p.contains ':' && !isRefusedName p

def parseRelPath (raw : PathText) : Option (List Name) :=
  if (codeUnits raw).length > 1024 || raw.any isControl || startsWith ['/'] raw || hasDrive raw then none
  else if raw.isEmpty then some []
  else
    let parts := raw.splitOn '/'
    if parts.length > 32 || parts.any (!isProperName ·) then none else some parts

theorem parseRelPath_cases {raw : PathText} {parts : List Name} (h : parseRelPath raw = some parts) :
    (raw = [] ∧ parts = []) ∨ (parts = raw.splitOn '/' ∧ ∀ p ∈ parts, isProperName p) := by
  unfold parseRelPath at h
  by_cases hbad : (codeUnits raw).length > 1024 || raw.any isControl || startsWith ['/'] raw || hasDrive raw
  · rw [if_pos hbad] at h
    cases h
  · rw [if_neg hbad] at h
    by_cases hempty : raw.isEmpty
    · rw [if_pos hempty] at h
      exact .inl ⟨List.isEmpty_iff.mp hempty, (Option.some.inj h).symm⟩
    · rw [if_neg hempty] at h
      dsimp only at h
      split_ifs at h with hparts
      cases h
      refine .inr ⟨rfl, fun p hp => ?_⟩
      by_contra himproper
      exact hparts (Bool.or_eq_true_iff.mpr (.inr (List.any_eq_true.mpr ⟨p, hp, by simpa using himproper⟩)))

theorem isRefusedName_of_isProperName {p : Name} (h : isProperName p) : isRefusedName p = false := by
  unfold isProperName at h
  simp only [Bool.and_eq_true, Bool.not_eq_true'] at h
  exact h.2

theorem parseRelPath_sound {raw : PathText} {parts : List Name} (h : parseRelPath raw = some parts) :
    ∀ p ∈ parts, isProperName p ∧ isRefusedName p = false := by
  intro p hp
  obtain ⟨-, rfl⟩ | ⟨-, hproper⟩ := parseRelPath_cases h
  · cases hp
  · exact ⟨hproper p hp, isRefusedName_of_isProperName (hproper p hp)⟩

end Sightr.Files
