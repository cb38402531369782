import Mathlib.Data.List.Forall2
import Sightr.Audit.Log

/-!
# What the pane write routes record

The audit entries of `replyPane` and `keysPane` (`bridge/pane-write-routes.ts`) and of the respond handler
(`threads/respond.ts`), from the request and from how it ended at the pane. Two runs that differ only in what
was typed and shown write the same lines in content mode `none`, but for the characters of a typed keys
request.
-/

namespace Sightr.Audit

/-! ### How a request ends -/

inductive BindingFailure
  | empty | notFound | notInTail | readFailed
  deriving DecidableEq

def BindingFailure.reason : BindingFailure → JsString
  | .empty => js "empty"
  | .notFound => js "not_found"
  | .notInTail => js "not_in_tail"
  | .readFailed => js "read_failed"

def bindingAudit (expected : JsString) (failure : Option BindingFailure) : JsValue :=
  .obj ([("checked", .bool true), ("passed", .bool failure.isNone), ("expected", .str expected)] ++
    failure.toList.map fun failure => ("reason", .str failure.reason))

inductive Queued (α : Type)
  /-- It ended before the pane was asked: turned away, no turn, or an error. -/
  | noTurn
  | unbound (failure : BindingFailure)
  | done (result : α)
  deriving DecidableEq

/-! ### Reply -/

structure ReplyBody where
  text : JsString
  submit : Bool := true
  expectedPrompt : Option JsString := none
  submitKeys : List JsString
  paste : Bool := false
  deriving DecidableEq

structure ReplyOutcome where
  ok : Bool
  textDelivered : Bool
  deriving DecidableEq

private def keysValue (keys : List JsString) : JsValue := .arr (keys.map .str)

def replyEntries (body : ReplyBody) : Queued ReplyOutcome → List (List (String × JsValue))
  | .noTurn => []
  | .unbound failure =>
    body.expectedPrompt.toList.map fun expected => [("text", .str body.text), ("submit", .bool body.submit),
      ("keys", keysValue body.submitKeys), ("sent", .bool false), ("textDelivered", .bool false),
      ("promptBinding", bindingAudit expected (some failure))]
  | .done outcome =>
    [[("text", .str body.text), ("submit", .bool body.submit), ("keys", keysValue body.submitKeys)] ++
      (if body.paste then [("paste", .bool true)] else []) ++
      (body.expectedPrompt.toList.map fun expected => ("promptBinding", bindingAudit expected none)) ++
      (if outcome.ok then [] else [("sent", .bool false), ("textDelivered", .bool outcome.textDelivered)])]

/-! ### Keys -/

structure KeysBody where
  keys : List JsString
  typed : Bool := false
  expectedPrompt : Option JsString := none
  deriving DecidableEq

def keysEntries (body : KeysBody) : Queued Bool → List (List (String × JsValue))
  | .noTurn => []
  | .unbound failure =>
    body.expectedPrompt.toList.map fun expected => [("keys", keysValue body.keys), ("sent", .bool false),
      ("promptBinding", bindingAudit expected (some failure))]
  | .done sent =>
    [[("keys", keysValue body.keys)] ++ (if sent then [] else [("sent", .bool false)]) ++
      body.expectedPrompt.toList.map fun expected => ("promptBinding", bindingAudit expected none)]

inductive Recipe
  | freeText | multiSelect | previewSelect
  deriving DecidableEq

def Recipe.name : Recipe → JsString
  | .freeText => js "free-text"
  | .multiSelect => js "multi-select"
  | .previewSelect => js "preview-select"

structure RespondBody where
  recipe : Option Recipe
  keys : List JsString
  text : JsString := []
  boundText : JsString
  deriving DecidableEq

structure RespondOutcome where
  sentKeys : List JsString
  ok : Bool
  typed : Bool := false
  deriving DecidableEq

def respondEntries (body : RespondBody) : Queued RespondOutcome → List (List (String × JsValue))
  | .noTurn => []
  | .unbound failure =>
    [[("keys", keysValue body.keys), ("sent", .bool false),
      ("promptBinding", bindingAudit body.boundText (some failure))]]
  | .done outcome =>
    let unsent := if outcome.ok then [] else [("sent", JsValue.bool false)]
    let binding := [("promptBinding", bindingAudit body.boundText none)]
    match body.recipe with
    | none => [[("keys", keysValue body.keys)] ++ unsent ++ binding]
    | some .freeText =>
      [[("keys", keysValue outcome.sentKeys), ("text", .str body.text), ("recipe", .str (Recipe.name .freeText))] ++
        unsent ++ (if outcome.typed then [("textDelivered", .bool true)] else []) ++ binding]
    | some recipe => [[("keys", keysValue outcome.sentKeys), ("recipe", .str recipe.name)] ++ unsent ++ binding]

/-! ### Runs -/

inductive WriteRequest
  | reply (body : ReplyBody) (result : Queued ReplyOutcome)
  | keys (body : KeysBody) (result : Queued Bool)
  | respond (body : RespondBody) (result : Queued RespondOutcome)

structure PaneWrite where
  paneId : String
  device : Option String := none
  now : Int
  request : WriteRequest

def PaneWrite.entries (w : PaneWrite) : List AuditEntry :=
  let of action (details : List (List (String × JsValue))) :=
    details.map fun detail => { action, paneId := some w.paneId, device := w.device, detail }
  match w.request with
  | .reply body result => of "reply" (replyEntries body result)
  | .keys body result => of "keys" (keysEntries body result)
  | .respond body result => of "keys" (respondEntries body result)

variable (isoString : Int → String)

/-- A detail as a line in content mode `none` holds it. -/
private def recorded (detail : List (String × JsValue)) : List (String × JsonValue) :=
  writtenProps (sanitizeProps .none detail)

end Sightr.Audit
