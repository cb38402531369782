import Sightr.Events
import Sightr.Lib.JsText

/-!
# Commands that only change the projection

`decide` of `bridge/threads/decide.ts`: a command and the rows it needs give the events it comes to, or a
reason to refuse it. Pure; the clock is in its context.
-/

namespace Sightr

/-- A command's number, which may be none (`NaN`, or past the range of a double). -/
abbrev JsNumber (α : Type) := Option α

inductive Command
  | projectRename (projectId label : String)
  | projectCheckpointsSet (projectId : String) (enabled : Bool)
  | rename (threadId title : String)
  | pin (threadId : String) (pinOrder : Option (JsNumber Rat))
  | unpin (threadId : String)
  | snooze (threadId : String) (until_ : JsNumber Int)
  | unsnooze (threadId : String)
  | settle (threadId : String)
  | unsettle (threadId : String)
  | archive (threadId : String)
  | unarchive (threadId : String)
  | delete (threadId : String)
  | markRead (threadId : String)
  | markUnread (threadId : String)
  /-- A type that has an effect handler, or none at all. -/
  | effect (type : String)
  deriving DecidableEq

structure DecideState where
  /-- The command's thread and project, when it names one. -/
  thread : Option ServerThread := none
  project : Option Project := none
  /-- Whether the thread's pane still exists in herdr. -/
  paneAlive : Bool
  /-- The highest `pinOrder` among pinned threads. -/
  maxPinOrder : Option Rat := none

inductive DecisionCode
  | notFound | invalid | conflict
  deriving DecidableEq

inductive Decision
  | ok (events : List EventDraft)
  | rejected (code : DecisionCode) (reason : String)
  deriving DecidableEq

/-- The longest title or label, in UTF-16 code units. -/
def MAX_NAME_LENGTH : Nat := 200

namespace Decision

def events : Decision → List EventDraft
  | ok events => events
  | rejected .. => []

def accept (threadId : String) (payload : ServerPayload) : Decision := ok [{ threadId := some threadId, payload }]

end Decision

section

variable (state : DecideState) (now : Int)

/-- A name without its outer white space, or why it is refused. -/
def checkName (name empty tooLong : String) : Except Decision String :=
  let trimmed := JsText.trim name.toList
  if trimmed = [] then .error (.rejected .invalid empty)
  else if (JsText.codeUnits trimmed).length > MAX_NAME_LENGTH then .error (.rejected .invalid tooLong)
  else .ok (String.ofList trimmed)

def decideProject (projectId : String) (f : Project → Decision) : Decision :=
  match state.project with
  | none => .rejected .notFound "no-such-project"
  | some project =>
    if project.id ≠ projectId then .rejected .notFound "no-such-project" else f project

def decideThread (threadId : String) (f : ServerThread → Decision) : Decision :=
  match state.thread with
  | none => .rejected .notFound "no-such-thread"
  | some thread =>
    if thread.id ≠ threadId then .rejected .notFound "no-such-thread" else f thread

def leaveShelf (thread : ServerThread) (shelf : Shelf) : Decision :=
  if thread.shelf ≠ shelf then .ok []
  else .accept thread.id (.threadShelfChanged .active none none now)

/-- The patch `{unreadDone}`, unless the thread has it. -/
def markUnreadDone (thread : ServerThread) (unreadDone : Bool) : Decision :=
  if thread.unreadDone = unreadDone then .ok []
  else .accept thread.id (.threadUpdated { unreadDone := .val unreadDone } now)

def decideCommand : Command → Decision
  | .projectRename projectId label => decideProject state projectId fun project =>
    match checkName label "empty-label" "label-too-long" with
    | .error refusal => refusal
    | .ok label => .ok [{ payload := .projectUpserted { project with label, labelSource := .user } }]
  | .projectCheckpointsSet projectId enabled => decideProject state projectId fun project =>
    if project.checkpoints = some enabled then .ok []
    else .ok [{ payload := .projectUpserted { project with checkpoints := some enabled } }]
  | .rename threadId title => decideThread state threadId fun thread =>
    match checkName title "empty-title" "title-too-long" with
    | .error refusal => refusal
    | .ok title =>
      if thread.shelf = .archived then .rejected .conflict "archived"
      else .accept thread.id (.threadUpdated { title := .val title, titleSource := .val .user } now)
  | .pin threadId wanted => decideThread state threadId fun thread =>
    if thread.shelf = .archived then .rejected .conflict "archived"
    else
      match wanted with
      | some none => .rejected .invalid "bad-pin-order"
      | some (some order) =>
        if thread.shelf = .pinned ∧ thread.pinOrder = some order then .ok []
        else .accept thread.id (.threadShelfChanged .pinned none (some order) now)
      | none =>
        if thread.shelf = .pinned then .ok []
        else .accept thread.id (.threadShelfChanged .pinned none (some (state.maxPinOrder.getD 0 + 1)) now)
  | .unpin threadId => decideThread state threadId (leaveShelf now · .pinned)
  | .snooze threadId until_ => decideThread state threadId fun thread =>
    match until_ with
    | none => .rejected .invalid "bad-time"
    | some time =>
      if time ≤ now then .rejected .invalid "snooze-in-past"
      else if thread.shelf = .archived then .rejected .conflict "archived"
      else .accept thread.id (.threadShelfChanged .snoozed (some time) none now)
  | .unsnooze threadId => decideThread state threadId (leaveShelf now · .snoozed)
  | .settle threadId => decideThread state threadId fun thread =>
    if thread.shelf = .archived then .rejected .conflict "archived"
    else if thread.shelf = .settled then .ok []
    else .accept thread.id (.threadShelfChanged .settled none none now)
  | .unsettle threadId => decideThread state threadId (leaveShelf now · .settled)
  | .archive threadId => decideThread state threadId fun thread =>
    if thread.shelf = .archived then .ok []
    else .accept thread.id (.threadArchived .user now)
  | .unarchive threadId => decideThread state threadId fun thread =>
    if thread.shelf ≠ .archived then .ok []
    else if !state.paneAlive then .rejected .conflict "pane-closed"
    else .accept thread.id (.threadShelfChanged .active none none now)
  -- Only an archived thread is forgotten, and only once its pane is closed.
  | .delete threadId => decideThread state threadId fun thread =>
    if thread.shelf ≠ .archived then .rejected .conflict "not-archived"
    else if state.paneAlive then .rejected .conflict "pane-open"
    else .accept thread.id (.threadDeleted now)
  | .markRead threadId => decideThread state threadId (markUnreadDone now · false)
  | .markUnread threadId => decideThread state threadId (markUnreadDone now · true)
  | .effect _ => .rejected .invalid "unsupported"

end

end Sightr
