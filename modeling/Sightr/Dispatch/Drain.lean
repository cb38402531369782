import Sightr.Dispatch.World

/-!
# The drainer

The pass of `bridge/threads/queue-drain.ts`, cut at its awaits, the hold of a closed thread's queue and
the hold a bridge start puts on every queue; and `deliver` of `dispatch.ts`, which makes the guarded
sender's answer a result.
-/

namespace Sightr

open Projection

/-! ### Messages -/

/-- The text that is typed: the message, then each attachment's path. -/
def messageText (text : String) (attachments : List ChatAttachment) : String :=
  let paths := (attachments.map fun a => JsText.trim a.path.toList).filter (!·.isEmpty)
  let body := JsText.trimEnd text.toList
  String.ofList (List.intercalate [' '] ((body :: paths).filter fun part => !(JsText.trim part).isEmpty))

/-- The `user_message` item a harness with no journal gets for what Sightr sent. -/
def userItem (thread : ServerThread) (text : String) (attachments : List ChatAttachment)
    (intent : UserMessageInputIntent) (now : Int) (newId : String) : List EventDraft :=
  if thread.capabilities.hasJournal then []
  else
    let id := "dispatch:" ++ newId
    [{ threadId := some thread.id
       payload := .turnItemUpdated
        { id, threadId := thread.id, runId := none, ordinal := none, status := .completed
          title := none, startedAt := none, completedAt := none, createdAt := now, updatedAt := now
          body := .userMessage id text attachments (some intent) } }]

def deliverResult (thread : ServerThread) (text : String) (attachments : List ChatAttachment)
    (intent : UserMessageInputIntent) (now : Int) (newId : String) :
    GuardedSendResult → DeliverResult
  | .noPane => .skipped .paneGone
  | .busy => .skipped .busy
  | .done .sent => .sent (userItem thread text attachments intent now newId)
  | .done (.error error textDelivered) =>
    if textDelivered then .delivered error else .failed "error" error
  | .done (.blocked error _) => .failed "blocked" error
  | .done (.stalled error _) => .failed "stalled" error

namespace World

/-! ### Holds -/

variable (w : World) (threadId : String)

def holdClosed : World :=
  let rows := w.listQueued threadId
  if rows.isEmpty || rows.all (·.state = .held) then w
  else
    match w.getThread threadId with
    | none => w
    | some _ =>
      (w.append [queueEvent threadId (rows.map fun r => if r.state = .held then r else heldRow r "pane-closed")
        (some .held) (some "pane-closed")]).getD w

/-- The row waits for the pane to rest after a restart. -/
def isRestartHeld (row : QueuedMessage) : Bool := row.state = .held && row.heldReason = some RESTART_HOLD_REASON

/-- A restart hold after the composer was read: it lifts itself once the pane rests. -/
def passRestart (thread : ServerThread) : Option Bool → World
  | none => w
  | some false => w.backOff thread.id
  | some true =>
    match w.getThread thread.id with
    | none => w
    | some fresh =>
      if fresh.shelf = .archived || !isSettled fresh.status ||
          (w.drainer.awaiting thread.id).isSome || w.hasOpenRequest thread.id then w
      else
        let rows := w.listQueued thread.id
        if !rows.any isRestartHeld then w
        else
          (w.append [queueEvent thread.id (rows.map fun r => if isRestartHeld r then unheldRow r else r)
            (some .resumed) (some AUTO_RESUME_REASON)]).getD w

/-! ### The pass -/

def setFailures (ref failures : Nat) : World :=
  { w with drainer := w.drainer.modify ref fun s => { s with failures } }

def passStart : World :=
  match w.getThread threadId with
  | none => w
  | some thread =>
    if thread.shelf = .archived || !thread.capabilities.canQueueDrain || !isSettled thread.status then w
    else
      let (drainer, ref) := w.drainer.stateOf threadId
      let w := { w with drainer }
      if (drainer.heap ref).awaiting.isSome then w
      else
        let rows := w.listQueued threadId
        -- A row in flight goes first; nothing overtakes it.
        if rows.any (·.state = .sending) then w
        else if rows.any isRestartHeld then
          if w.hasOpenRequest threadId then w else w.spawn (.pass threadId (.restart thread))
        else
          match rows.find? (·.state = .queued) with
          | none => w.setFailures ref 0
          | some row => w.spawn (.pass threadId (.ready thread row ref))

/-- A pass after the composer was read: take the row, if nothing changed, and send it. -/
def passReady (row : QueuedMessage) (passRef : Nat) : Option Bool → World
  | none => w
  | some false => w.backOff threadId
  | some true =>
    match w.getThread threadId with
    | none => w
    | some fresh =>
      let current := w.listQueued threadId
      if fresh.shelf = .archived || !isSettled fresh.status || (w.drainer.awaiting threadId).isSome
      then w
      else
        match current.find? (·.id = row.id) with
        | none => w
        | some still =>
          if still.state ≠ .queued || current.any (·.state = .sending) then w
          else if (current.find? (·.state = .queued)).map (·.id) ≠ some row.id then w.schedule threadId
          else
            match withRow w.db.projection threadId row.id (some { still with state := .sending }) with
            | none => w
            | some sending =>
              match w.append [queueEvent threadId sending] with
              | none => w
              | some w => w.send threadId (.drained row.id) fun ref mark =>
                  .pass threadId (.sending fresh still passRef ref mark)

/-- The thread's queue without a row, or as it is when the row is gone. -/
def without (threadId rowId : String) : List QueuedMessage :=
  (withRow w.db.projection threadId rowId none).getD (w.listQueued threadId)

/-- Put a row back with another state, where it is still queued; then go on with `next`. -/
def putBack (row : QueuedMessage) (next : World → World) : World :=
  match withRow w.db.projection threadId row.id (some row) with
  | none => next w
  | some rows =>
    match w.append [queueEvent threadId rows] with
    | none => w
    | some w => next w

def passSent (still : QueuedMessage) (passRef ref mark : Nat) (result : DeliverResult) : World :=
  let w := w.sendBack threadId (.drained still.id) ref mark result
  match result with
  | .sent events =>
    let w := w.setFailures passRef 0
    (w.append (events ++ [queueEvent threadId (w.without threadId still.id) (some .sent)])).getD w
  | .delivered message =>
    -- The text sits in the box, unsubmitted; it is never resent.
    let w := w.setFailures passRef 0
    (w.append [queueEvent threadId (w.without threadId still.id),
      dispatchFailed threadId "error" (some message) (some true) (some still.id)]).getD w
  | .skipped reason =>
    w.putBack threadId { still with state := .queued } fun w =>
      if reason = .busy then w.backOff threadId else w
  | .failed reason message =>
    let failures := (w.drainer.heap passRef).failures + 1
    if MAX_DRAIN_FAILURES ≤ failures then
      let w := w.setFailures passRef 0
      match withRow w.db.projection threadId still.id (some (heldRow still reason)) with
      | none => w
      | some rows =>
        (w.append [queueEvent threadId rows (some .held) (some reason),
          dispatchFailed threadId reason (some message) none (some still.id)]).getD w
    else
      (w.setFailures passRef failures).putBack threadId { still with state := .queued } fun w =>
        w.backOff threadId

/-! ### The start of the bridge -/

def holdRestart : World :=
  let rows := w.listQueued threadId
  if rows.all (·.state = .held) then w
  else
    match w.append [queueEvent threadId
      (rows.map fun r => if r.state = .held then r else heldRow r RESTART_HOLD_REASON)
      (some .held) (some RESTART_HOLD_REASON)] with
    | none => w
    | some w => w.spawn (.schedule threadId)

/-- The dispatcher just after `start`, on the store it finds: every row is held first. -/
def boot (db : Db) (now : Int) : World :=
  let rows := db.projection.queuedMessages.rows
  let w : World :=
    { db, now, drainer := .empty, interrupting := fun _ => none, tasks := []
      issued := rows.map (·.id), log := [] }
  ((rows.map (·.threadId)).dedup).foldl holdRestart w

end World

end Sightr
