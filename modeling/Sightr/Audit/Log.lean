import Sightr.Lib.JsText

/-!
# The lines of the audit log

`formatAuditLine` of `bridge/audit.ts`. A line is one JSON value; its text is what `JSON.stringify` makes of
it. Strings are lists of UTF-16 code units.
-/

namespace Sightr

open JsText

/-! ### Values -/

abbrev JsString := List Nat

def js (s : String) : JsString := codeUnits s.toList

/-- A JavaScript value. A function is known by what a call of it returns. -/
inductive JsValue
  | undefined
  | null
  | bool (b : Bool)
  | num (text : String)
  | str (s : JsString)
  | func (returns : JsValue)
  | arr (items : List JsValue)
  | obj (props : List (String × JsValue))

inductive JsonValue
  | null
  | bool (b : Bool)
  | num (text : String)
  | str (s : JsString)
  | arr (items : List JsonValue)
  | obj (props : List (String × JsonValue))

/-! ### What `JSON.stringify` writes -/

mutual

/-- What is written of a value; none when it is left out. An own `toJSON` is called unless the value is what
such a call returned. -/
def written (look : Bool) : JsValue → Option JsonValue
  | .undefined => none
  | .null => some .null
  | .bool b => some (.bool b)
  | .num text => some (.num text)
  | .str s => some (.str s)
  | .func _ => none
  | .arr items => some (.arr (writtenItems items))
  | .obj props =>
    match look, writtenCall props with
    | true, some result => result
    | _, _ => some (.obj (writtenProps props))

/-- What is written of the result of the properties' `toJSON`, when they have one. -/
def writtenCall : List (String × JsValue) → Option (Option JsonValue)
  | [] => none
  | (key, value) :: props =>
    match value with
    | .func returns => if key = "toJSON" then some (written false returns) else writtenCall props
    | _ => writtenCall props

def writtenItems : List JsValue → List JsonValue
  | [] => []
  | item :: items => (written true item).getD .null :: writtenItems items

def writtenProps : List (String × JsValue) → List (String × JsonValue)
  | [] => []
  | (key, value) :: props =>
    match written true value with
    | some value => (key, value) :: writtenProps props
    | none => writtenProps props

end

/-! ### Sanitizing -/

def MAX_STR : Nat := 120

inductive AuditContent
  | preview | none
  deriving DecidableEq

def METADATA_KEYS : List String :=
  ["checked", "id", "keys", "passed", "reason", "saved", "sent", "size", "submit", "submitted", "tabId",
    "textDelivered", "threadId", "type", "workspaceId"]

def redacted : JsString := js "⟨redacted⟩"

private def isNewline (unit : Nat) : Bool := unit = 10 || unit = 13

/-- Each run of line breaks as one space. `inRun` says that the text before ended in one. -/
private def foldNewlines (inRun : Bool) : JsString → JsString
  | [] => []
  | unit :: s =>
    if isNewline unit then (if inRun then foldNewlines true s else 32 :: foldNewlines true s)
    else unit :: foldNewlines false s

def previewText (s : JsString) : JsString :=
  let oneLine := foldNewlines false s
  if MAX_STR < oneLine.length then oneLine.take MAX_STR ++ js "…" else oneLine

mutual

/-- A detail as the line holds it. `allowed` is the enclosing key's verdict. -/
def sanitize (content : AuditContent) (allowed : Bool) : JsValue → JsValue
  | .func _ => .null
  | .str s => .str (if content = .none && !allowed then redacted else previewText s)
  | .arr items => .arr (sanitizeItems content allowed items)
  | .obj props => .obj (sanitizeProps content props)
  | .undefined => .undefined
  | .null => .null
  | .bool b => .bool b
  | .num text => .num text

def sanitizeItems (content : AuditContent) (allowed : Bool) : List JsValue → List JsValue
  | [] => []
  | item :: items => sanitize content allowed item :: sanitizeItems content allowed items

/-- Each key decides anew. A function is dropped; `__proto__` names no property of the copy. -/
def sanitizeProps (content : AuditContent) : List (String × JsValue) → List (String × JsValue)
  | [] => []
  | (key, value) :: props =>
    match value with
    | .func _ => sanitizeProps content props
    | value =>
      if key = "__proto__" then sanitizeProps content props
      else (key, sanitize content (METADATA_KEYS.contains key) value) :: sanitizeProps content props

end

/-! ### Lines -/

structure AuditEntry where
  action : String
  paneId : Option String := none
  device : Option String := none
  detail : List (String × JsValue) := []

variable (isoString : Int → String) (entry : AuditEntry) (now : Int)

mutual

/-- Every string is redacted, or stands under a key that is allowed. -/
def Redacted (allowed : Bool) : JsonValue → Prop
  | .str s => allowed = true ∨ s = redacted
  | .arr items => RedactedItems allowed items
  | .obj props => RedactedProps props
  | .null | .bool _ | .num _ => True

def RedactedItems (allowed : Bool) : List JsonValue → Prop
  | [] => True
  | item :: items => Redacted allowed item ∧ RedactedItems allowed items

def RedactedProps : List (String × JsonValue) → Prop
  | [] => True
  | (key, value) :: props => Redacted (METADATA_KEYS.contains key) value ∧ RedactedProps props

end

private theorem written_obj {look : Bool} {props : List (String × JsValue)} (h : writtenCall props = none) :
    written look (.obj props) = some (.obj (writtenProps props)) := by
  cases look <;> simp [written, h]

theorem writtenCall_sanitizeProps (content : AuditContent) (props : List (String × JsValue)) :
    writtenCall (sanitizeProps content props) = none := by
  induction props with
  | nil => rfl
  | cons p props ih =>
    obtain ⟨key, value⟩ := p
    by_cases hproto : key = "__proto__"
    · cases value <;> simp [sanitizeProps, hproto, ih]
    · cases value <;> simp [sanitizeProps, sanitize, writtenCall, hproto, ih]

theorem written_sanitize_obj (look : Bool) (content : AuditContent) (allowed : Bool)
    (props : List (String × JsValue)) :
    written look (sanitize content allowed (.obj props)) =
      some (.obj (writtenProps (sanitizeProps content props))) :=
  written_obj (writtenCall_sanitizeProps content props)

mutual

theorem redacted_written (allowed look : Bool) (value : JsValue) :
    ∀ j, written look (sanitize .none allowed value) = some j → Redacted allowed j := by
  intro j h
  match value with
  | .undefined => simp [sanitize, written] at h
  | .null | .bool _ | .num _ | .func _ =>
    simp only [sanitize, written, Option.some.injEq] at h
    subst h
    trivial
  | .str s =>
    simp only [sanitize, written, Option.some.injEq] at h
    subst h
    cases allowed <;> simp [Redacted]
  | .arr items =>
    simp only [sanitize, written, Option.some.injEq] at h
    subst h
    exact redacted_writtenItems allowed items
  | .obj props =>
    rw [written_sanitize_obj, Option.some.injEq] at h
    subst h
    exact redacted_writtenProps props

theorem redacted_writtenItems (allowed : Bool) (items : List JsValue) :
    RedactedItems allowed (writtenItems (sanitizeItems .none allowed items)) := by
  match items with
  | [] => trivial
  | item :: items =>
    refine ⟨?_, redacted_writtenItems allowed items⟩
    cases h : written true (sanitize .none allowed item) with
    | none => trivial
    | some j => exact redacted_written allowed true item j h

theorem redacted_writtenProps (props : List (String × JsValue)) :
    RedactedProps (writtenProps (sanitizeProps .none props)) := by
  match props with
  | [] => trivial
  | (key, value) :: props =>
    have hrest := redacted_writtenProps props
    have hkeep : RedactedProps (writtenProps ((key, sanitize .none (METADATA_KEYS.contains key) value) ::
        sanitizeProps .none props)) := by
      rw [writtenProps]
      cases h : written true (sanitize .none (METADATA_KEYS.contains key) value) with
      | none => exact hrest
      | some j => exact ⟨redacted_written _ true value j h, hrest⟩
    by_cases hproto : key = "__proto__"
    · cases value <;> simpa [sanitizeProps, hproto] using hrest
    · cases value with
      | func returns => exact hrest
      | _ =>
        simp only [sanitizeProps, if_neg hproto]
        exact hkeep

end

end Sightr
