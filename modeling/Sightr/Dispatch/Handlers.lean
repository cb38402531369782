import Sightr.Dispatch.Drain

/-!
# The dispatcher's handlers

The effect handlers of `bridge/threads/dispatch.ts` (a message, its interrupt key, the small queue
commands) and of `live-modes.ts` (a permission mode, a model), and the background steer, each cut at its
awaits. A handler up to its first await is a function of its own, and so is every continuation.
-/

namespace Sightr

open Projection

/-! ### What a command may carry -/

/-- How long a steer waits for the interrupted run to come to rest before it gives up and holds. -/
def STEER_WAIT_MS : Int := 15000

/-- Past this long, a press that did nothing may be repeated. -/
def INTERRUPT_REPEAT_MS : Int := STEER_WAIT_MS

def MAX_DISPATCH_CHARS : Nat := 64 * 1024

def MAX_ATTACHMENTS : Nat := 10

def textLength (text : String) : Nat := (JsText.codeUnits text.toList).length

def isBlank (text : String) : Bool := (JsText.trim text.toList).isEmpty

def invalidAttachment (a : ChatAttachment) : Bool :=
  isBlank a.path || decide (4096 < textLength a.path) || a.path.toList.any (fun c => c = '\r' || c = '\n') ||
    decide (512 < textLength a.name)

/-- Why `value` is not a list of attachments, or none. -/
def invalidAttachments (value : List ChatAttachment) : Option String :=
  if MAX_ATTACHMENTS < value.length || value.any invalidAttachment then some "bad-attachments" else none

/-- Only what a row keeps of an attachment: never a client's extra fields. -/
def cleanAttachments (value : List ChatAttachment) : List ChatAttachment :=
  value.map fun a => { path := a.path, name := a.name }

def invalidText (text : String) (allowEmpty : Bool) : Option String :=
  if !allowEmpty && isBlank text then some "empty-text"
  else if MAX_DISPATCH_CHARS < textLength text then some "text-too-long"
  else none

/-- `failureText`: what a client is told of an error. -/
def failureText (context : String) : String := context ++ " failed"

inductive DispatchMode
  | start | queue | steer
  deriving DecidableEq

/-- The commands of the dispatcher and of the live modes. -/
inductive DispatchCommand
  | messageDispatch (threadId text : String) (attachments : List ChatAttachment) (mode : DispatchMode)
  | runInterrupt (threadId : String)
  | queuedReorder (threadId : String) (ids : List String)
  | queuedEdit (id text : String)
  | queuedCancel (id : String)
  | queueResume (threadId : String)
  | permissionModeSet (threadId mode : String) (confirmBypass : Bool)
  | modelSet (threadId model : String)
  deriving DecidableEq

namespace World

/-! ### Checks -/

variable (w : World) (thread : ServerThread)

def blocked : Bool := thread.status = .approval || thread.status = .input || w.hasOpenRequest thread.id

def resting : Bool := isSettled thread.status || thread.status = .failed

variable (threadId : String)

def pressedRecently : Bool := (w.interrupting threadId).any fun at_ => decide (w.now - at_ < INTERRUPT_REPEAT_MS)

def interruptRefusal : Option EffectOutcome :=
  if thread.shelf = .archived then some (conflict "thread-archived")
  else if w.blocked thread then some (conflict "needs-response")
  else if !thread.capabilities.canInterrupt || (thread.capabilities.interruptKeys.getD []).isEmpty then
    some (refuse 409 .unsupported "interrupt-unsupported")
  else if thread.status ≠ .working then some (conflict "not-working")
  else if w.pressedRecently thread.id then some (conflict "already-interrupting")
  else none

/-- Append with the command's receipt and answer ok; none when the store throws. -/
def commit? (drafts : List EventDraft) (ctx : EffectContext) (threadId : String) : Option World :=
  (w.append drafts { commandId := some ctx.commandId, receipt := some ctx.receipt }).map fun w =>
    w.answer ctx (.ok w.db.lastSequence threadId)

def commit (w : World) (drafts : List EventDraft) (ctx : EffectContext) (threadId : String) : World :=
  (w.commit? drafts ctx threadId).getD (w.threw ctx)

/-! ### message.dispatch -/

variable (text : String) (attachments : List ChatAttachment)

def startPath (ctx : EffectContext) : World :=
  w.send thread.id .start fun ref mark => .dispatch ctx thread text attachments (.sending ref mark)

variable (ctx : EffectContext)

def startSent (ref mark : Nat) (result : DeliverResult) : World :=
  let w := w.sendBack thread.id .start ref mark result
  match result with
  -- Nothing typed: no receipt, so a retry of the same id may try again.
  | .skipped .busy => w.answer ctx (refuse 503 .busy "pane busy")
  | .skipped .paneGone => w.answer ctx (conflict "pane-gone")
  | .sent events => w.commit events ctx thread.id
  | .delivered message => w.commit [dispatchFailed thread.id "error" (some message) (some true)] ctx thread.id
  -- The text stays out of the queue: the operator sees the failure and decides.
  | .failed reason message => w.commit [dispatchFailed thread.id reason (some message)] ctx thread.id

def newRow (position : Int) (mode : QueueMode) (state : QueuedMessageState) (newId : String) :
    QueuedMessage :=
  { id := newId, threadId := thread.id, text, attachments, position, mode, state, createdAt := w.now }

section

variable (ctx : EffectContext)

/-- Add the message at the back of the queue that was read. -/
def enqueueRow (rows : List QueuedMessage) (newId : String) : World :=
  let row := w.newRow thread text attachments rows.length .queue .queued newId
  match w.commit? [queueEvent thread.id (rows ++ [row]) (some .added)] ctx thread.id with
  | none => w.threw ctx
  | some w => (w.observe (.accepted thread.id row.id)).schedule thread.id

def enqueue (newId : String) : World :=
  if !thread.capabilities.canQueueDrain then
    w.answer ctx (refuse 409 .unsupported "queue-unsupported")
  else
    let rows := w.listQueued thread.id
    -- Nothing ahead of it and nothing in the way, unless the composer is not drawn yet.
    if rows.isEmpty && resting thread && !w.blocked thread then
      w.spawn (.dispatch ctx thread text attachments (.enqueueReady rows))
    else w.enqueueRow thread text attachments ctx rows newId

def enqueueReady (rows : List QueuedMessage) (ready : Option Bool) (newId : String) : World :=
  if ready ≠ some false then w.startPath thread text attachments ctx
  else w.enqueueRow thread text attachments ctx rows newId

/-- A steer goes to the head of the queue, already `sending`, and on in the background. -/
def steerRow (newId : String) : World :=
  let stopping := w.pressedRecently thread.id
  match if stopping then none else w.interruptRefusal thread with
  | some refusal => w.answer ctx refusal
  | none =>
    let rows := w.listQueued thread.id
    let row := w.newRow thread text attachments (-1) .steer .sending newId
    match w.commit? [queueEvent thread.id (row :: rows) (some .added)] ctx thread.id with
    | none => w.threw ctx
    | some w =>
      let w := w.observe (.accepted thread.id row.id)
      match w.getThread thread.id with
      | none => w
      | some fresh => w.spawn (.steer thread.id row.id (!stopping) (.background fresh))

end

def dispatch (w : World) (threadId text : String) (attachments : List ChatAttachment)
    (mode : DispatchMode) (ctx : EffectContext) (newId : String) : World :=
  if threadId = "" then w.answer ctx (invalid "bad-threadId")
  else
    match invalidAttachments attachments with
    | some bad => w.answer ctx (invalid bad)
    | none =>
      let attachments := cleanAttachments attachments
      match invalidText text (!attachments.isEmpty) with
      | some bad => w.answer ctx (invalid bad)
      | none =>
        if messageText text attachments = "" then w.answer ctx (invalid "empty-text")
        else
          match w.getThread threadId with
          | none => w.answer ctx (notFound "no-such-thread")
          | some thread =>
            if thread.shelf = .archived then w.answer ctx (conflict "thread-archived")
            else
              match mode with
              | .start =>
                if w.blocked thread then w.answer ctx (conflict "needs-response")
                else if resting thread then w.startPath thread text attachments ctx
                else w.spawn (.dispatch ctx thread text attachments .startBackground)
              | .queue => w.enqueue thread text attachments ctx newId
              | .steer =>
                if w.blocked thread then w.answer ctx (conflict "needs-response")
                else if resting thread then w.startPath thread text attachments ctx
                else if thread.status ≠ .working then w.answer ctx (conflict "thread-busy")
                else if !thread.capabilities.canQueueDrain then
                  w.answer ctx (refuse 409 .unsupported "queue-unsupported")
                else if openRunIsMaintenance w.db.projection thread.id then
                  w.enqueue thread text attachments ctx newId
                else w.spawn (.dispatch ctx thread text attachments .steerBackground)

/-! ### Answers -/

inductive CycleResult
  | reached (presses : Nat)
  /-- Before any key went out: `unsupported`, `blocked` or `unknown-mode`. -/
  | refused (reason : String)
  | stopped (reason : String) (presses : Nat) (shown : Option String)
  | keyFailed (presses : Nat)
  deriving DecidableEq

inductive PaneTurn
  | noPane | busy
  | value (result : CycleResult)
  deriving DecidableEq

inductive Answer
  | go
  /-- A screen read: the harness waits for background agents, or is compacting. -/
  | screen (shows : Bool)
  /-- `composerReady`: none when the pane is gone. -/
  | composer (ready : Option Bool)
  /-- The pane's queue turn: none when the pane is busy, else whether the pane is still the thread's. -/
  | turn (pane : Option Bool)
  | key (sent : Bool)
  | send (result : GuardedSendResult)
  | paneTurn (turn : PaneTurn)
  | threw (message : String)
  deriving DecidableEq

/-! ### The interrupt -/

/-- One press of the thread's interrupt keys, in the pane's queue turn: from one wait to the next. -/
def sendInterrupt (steering : Bool) : InterruptStage → Answer → Option (World × InterruptStage)
  | .turn, .turn none => some (w, .pressed (.refused (refuse 503 .busy "pane busy")))
  | .turn, .turn (some false) => some (w, .pressed (.refused (conflict "pane-gone")))
  | .turn, .turn (some true) =>
    if steering then
      if openRunIsMaintenance w.db.projection thread.id then some (w, .pressed .maintenance)
      else some (w, .compacting)
    else some (w, .keys)
  | .compacting, .screen compacting => some (w, if compacting then .pressed .maintenance else .keys)
  | .keys, .key false =>
    some (w, .pressed (.refused (refuse 502 .failed (failureText "interrupt key"))))
  | .keys, .key true =>
    some ({ w with interrupting := Function.update w.interrupting thread.id (some w.now) }.observe
      (.pressed thread.id w.now), .pressed .ok)
  | _, _ => none

def runInterrupt : World :=
  if threadId = "" then w.answer ctx (invalid "bad-threadId")
  else
    match w.getThread threadId with
    | none => w.answer ctx (notFound "no-such-thread")
    | some thread =>
      match w.interruptRefusal thread with
      | some refusal => w.answer ctx refusal
      | none => w.spawn (.interrupt ctx thread .turn)

def interruptPressed : InterruptResult → World
  | .ok => w.commit [] ctx thread.id
  | .refused outcome => w.answer ctx outcome
  | .maintenance => w.answer ctx (conflict "not-working")

/-! ### The background steer -/

/-- Take the steer row off the send path, at the head of the queue, and say why. -/
def holdSteer (threadId rowId reason : String) (message : Option String := none) : World :=
  let rows := w.listQueued threadId
  match rows.find? (·.id = rowId), w.getThread threadId with
  | some row, some _ =>
    let held : QueuedMessage := { row with position := -1 }
    let next := heldRow held reason :: rows.filter (·.id ≠ rowId)
    (w.append [queueEvent threadId next (some .held) (some reason),
      dispatchFailed threadId reason message none (some rowId)]).getD w
  | _, _ => w

/-- The steer row becomes a plain queued follow-up at the back of the queue. -/
def requeueSteer (threadId rowId : String) : World :=
  let rows := w.listQueued threadId
  match rows.find? (·.id = rowId), w.getThread threadId with
  | some row, some _ =>
    let rest := rows.filter (·.id ≠ rowId)
    let next : QueuedMessage := { row with mode := .queue, state := .queued, position := rest.length }
    match w.append [queueEvent threadId (rest ++ [next])] with
    | none => w
    | some w => w.schedule threadId
  | _, _ => w

/-- The steer sends its row, if the row still waits for it. -/
def deliverSteer (threadId rowId : String) (press : Bool) : World :=
  match w.getThread threadId, w.getQueued rowId with
  | some fresh, some row =>
    if fresh.shelf = .archived || row.state ≠ .sending then w
    else w.send threadId (.steer rowId) fun ref mark => .steer threadId rowId press (.sending fresh row ref mark)
  | _, _ => w

def steerSent (threadId rowId : String) (ref mark : Nat) (result : DeliverResult) : World :=
  let w := w.sendBack threadId (.steer rowId) ref mark result
  let rest := (w.listQueued threadId).filter (·.id ≠ rowId)
  match result with
  | .sent events => (w.append (events ++ [queueEvent threadId rest (some .sent)])).getD w
  | .delivered message =>
    (w.append [queueEvent threadId rest,
      dispatchFailed threadId "error" (some message) (some true) (some rowId)]).getD w
  | .skipped reason => w.holdSteer threadId rowId reason.text
  | .failed reason message => w.holdSteer threadId rowId reason (some message)

def waitSettled (threadId rowId : String) (press : Bool) (thread : ServerThread) : World :=
  let resolved : Option SettleWait :=
    match w.getThread threadId with
    | none => some .gone
    | some fresh =>
      if fresh.shelf = .archived then some .gone
      else if isSettled fresh.status then some .settled else none
  { w with drainer := w.drainer.addWaiter threadId resolved }.spawn
    (.steer threadId rowId press (.waiting thread w.drainer.nextWaiter (w.now + STEER_WAIT_MS)))

def steerBackground (threadId rowId : String) (press : Bool) (thread : ServerThread) (waiting : Bool) : World :=
  if waiting then w.deliverSteer threadId rowId press
  -- A Stop was just pressed: a second key would do something else.
  else if press then w.spawn (.steer threadId rowId press (.interrupting thread .turn))
  else w.waitSettled threadId rowId press thread

def steerPressed (threadId rowId : String) (press : Bool) (thread : ServerThread) : InterruptResult → World
  | .ok => w.waitSettled threadId rowId press thread
  | .maintenance => w.requeueSteer threadId rowId
  | .refused (.ok ..) => w.holdSteer threadId rowId "interrupt-failed"
  | .refused (.refused _ _ error ..) => w.holdSteer threadId rowId "interrupt-failed" (some error)

def waitOver (waiter : Nat) (due : Int) : Option SettleWait :=
  match (w.drainer.waiters.find? (·.id = waiter)).bind (·.resolved) with
  | some why => some why
  | none => if due ≤ w.now then some .timeout else none

def steerWaited (threadId rowId : String) (press : Bool) (thread : ServerThread)
    (waiter : Nat) (why : SettleWait) : World :=
  let w := { w with drainer := w.drainer.dropWaiter waiter }
  match why with
  -- Archived: the drainer holds every row with `pane-closed`.
  | .gone => w
  | .settled => w.deliverSteer threadId rowId press
  | .timeout => w.spawn (.steer threadId rowId press (.backgroundAgain thread))

def steerTimedOut (threadId rowId : String) (press waiting : Bool) : World :=
  if waiting then w.deliverSteer threadId rowId press
  else w.holdSteer threadId rowId "interrupt-timeout"

/-! ### Queue commands -/

def reorder (ids : List String) (ctx : EffectContext) : World :=
  if threadId = "" then w.answer ctx (invalid "bad-threadId")
  else
    match w.getThread threadId with
    | none => w.answer ctx (notFound "no-such-thread")
    | some _ =>
      let rows := w.listQueued threadId
      -- A stale list is refused, never half-applied.
      if ids.length ≠ rows.length || ids.dedup.length ≠ rows.length ||
          !ids.all (fun id => rows.any (·.id = id)) then w.answer ctx (conflict "queue-changed")
      else if ids = rows.map (·.id) then w.commit [] ctx threadId
      else
        let next := (ids.filterMap fun id => rows.find? (·.id = id)).mapIdx
          fun position row => { row with position := position }
        w.commit [queueEvent threadId next (some .reordered)] ctx threadId

def edit (id text : String) (ctx : EffectContext) : World :=
  if id = "" then w.answer ctx (invalid "bad-id")
  else
    match w.getQueued id with
    | none => w.answer ctx (notFound "no-such-message")
    | some row =>
      match invalidText text (!row.attachments.isEmpty) with
      | some bad => w.answer ctx (invalid bad)
      | none =>
        if row.state = .sending then w.answer ctx (conflict "already-sending")
        else if row.text = text then w.commit [] ctx row.threadId
        else
          let rows := (w.listQueued row.threadId).map fun r => if r.id = row.id then { r with text } else r
          w.commit [queueEvent row.threadId rows (some .edited)] ctx row.threadId

def cancel (id : String) (ctx : EffectContext) : World :=
  if id = "" then w.answer ctx (invalid "bad-id")
  else
    match w.getQueued id with
    | none => w.answer ctx (notFound "no-such-message")
    | some row =>
      if row.state = .sending then w.answer ctx (conflict "already-sending")
      else
        let rows := (w.listQueued row.threadId).filter (·.id ≠ row.id)
        match w.commit? [queueEvent row.threadId rows (some .cancelled)] ctx row.threadId with
        | none => w.threw ctx
        | some w => w.observe (.cancelled row.id)

def resumeQueue : World :=
  if threadId = "" then w.answer ctx (invalid "bad-threadId")
  else
    match w.getThread threadId with
    | none => w.answer ctx (notFound "no-such-thread")
    | some thread =>
      if thread.shelf = .archived then w.answer ctx (conflict "thread-archived")
      else
        let rows := w.listQueued thread.id
        if !rows.any (·.state = .held) then w.commit [] ctx thread.id
        else
          let next := rows.map fun r => if r.state = .held then unheldRow r else r
          match w.commit? [queueEvent thread.id next (some .resumed)] ctx thread.id with
          | none => w.threw ctx
          | some w => w.schedule thread.id

/-! ### Live modes -/

/-- A model's name: a letter or digit, then at most 79 letters, digits, dots and the like. -/
def isModelName (model : String) : Bool :=
  match model.toList with
  | [] => false
  | c :: rest =>
    c.isAlphanum && decide (rest.length ≤ 79) &&
      rest.all fun c => c.isAlphanum || ['.', '_', ':', '/', '-'].contains c

def BYPASS_MODE : String := "bypassPermissions"

/-- Why a thread cannot be switched now: it must rest with nothing waiting on the operator. -/
def notSettled : Option EffectOutcome :=
  if thread.shelf = .archived then some (conflict "thread-archived")
  else if w.blocked thread then some (conflict "needs-response")
  else if !isSettled thread.status then some (conflict "thread-busy")
  else none

/-- Mark the thread as sending, so a queued row cannot interleave; `task` waits for the pane. -/
def beginSwitch (task : Nat → Nat → Task) : World :=
  let (drainer, ref, mark) := w.drainer.beginSend threadId
  { w with drainer }.spawn (task ref mark)

/-- A switch starts no run, so the drainer need not wait for one. -/
def endSwitch (ref mark : Nat) : World :=
  let status := ((w.getThread threadId).map (·.status)).getD .idle
  { w with drainer := w.drainer.finishSend ref mark false status w.now }

def modePatch (mode : String) : List EventDraft :=
  if thread.permissionMode = some mode then []
  else
    [{ threadId := some thread.id
       payload := .threadUpdated { permissionMode := .val mode } w.now }]

/-- The thread a permission mode switch is for, or why it is refused. -/
def permissionModeCheck (threadId mode : String) (confirmBypass : Bool) : Except EffectOutcome ServerThread :=
  if threadId = "" then .error (invalid "bad-threadId")
  else if mode = "" then .error (invalid "invalid-mode")
  else
    match w.getThread threadId with
    | none => .error (notFound "no-such-thread")
    | some thread =>
      if !thread.capabilities.canSwitchPermissionMode then
        .error (refuse 409 .unsupported "permission-mode-unsupported")
      else if !(thread.capabilities.permissionModes.getD []).contains mode then
        .error (invalid "invalid-mode")
      else if mode = BYPASS_MODE && !confirmBypass then .error (invalid "bypass-needs-confirm")
      else
        match w.notSettled thread with
        | some busy => .error busy
        | none => .ok thread

def setPermissionMode (threadId mode : String) (confirmBypass : Bool) (ctx : EffectContext) : World :=
  match w.permissionModeCheck threadId mode confirmBypass with
  | .error refusal => w.answer ctx refusal
  | .ok thread => w.beginSwitch thread.id fun ref mark => .permissionMode ctx thread mode ref mark

/-- `thread.permissionMode.set` after its pane turn; none when the turn threw. -/
def permissionModeSet (mode : String) (ctx : EffectContext) (ref mark : Nat) (turn : Option PaneTurn) : World :=
  let w := w.endSwitch thread.id ref mark
  let current := (w.getThread thread.id).getD thread
  match turn with
  | none => w.threw ctx
  | some .noPane => w.answer ctx (conflict "pane-gone")
  | some .busy => w.answer ctx (refuse 503 .busy "pane busy")
  | some (.value (.reached _)) => w.commit (w.modePatch current mode) ctx thread.id
  | some (.value (.refused reason)) =>
    if reason = "unsupported" then w.answer ctx (refuse 409 .unsupported "permission-mode-unsupported")
    else w.answer ctx (conflict reason)
  | some (.value (.stopped reason _ shown)) =>
    -- Keys went out: record the mode the footer last showed, then refuse with a receipt.
    let patch := (shown.map (w.modePatch current)).getD []
    let refusal : EffectOutcome := .refused 409 .conflict reason true (some thread.id) shown
    if patch.isEmpty then w.answer ctx refusal
    else
      match w.append patch { commandId := some ctx.commandId } with
      | none => w.threw ctx
      | some w => w.answer ctx refusal
  | some (.value (.keyFailed presses)) =>
    w.answer ctx (.refused 502 .failed (failureText "mode key") (decide (0 < presses)) (some thread.id) none)

/-- The thread a model switch is for, or why it is refused. -/
def modelCheck (threadId model : String) : Except EffectOutcome ServerThread :=
  if threadId = "" then .error (invalid "bad-threadId")
  else if !isModelName model then .error (invalid "invalid-model")
  else
    match w.getThread threadId with
    | none => .error (notFound "no-such-thread")
    | some thread =>
      if !thread.capabilities.canSwitchModel || (thread.capabilities.modelCommand.getD "") = "" then
        .error (refuse 409 .unsupported "model-unsupported")
      else
        match w.notSettled thread with
        | some busy => .error busy
        | none => .ok thread

def setModel (threadId model : String) (ctx : EffectContext) : World :=
  match w.modelCheck threadId model with
  | .error refusal => w.answer ctx refusal
  | .ok thread => w.beginSwitch thread.id fun ref mark => .model ctx thread ref mark

/-- `thread.model.set` after its send; none when the sender threw. -/
def modelSent (ref mark : Nat) (result : Option GuardedSendResult) : World :=
  let w := w.endSwitch thread.id ref mark
  match result with
  | none => w.threw ctx
  | some .noPane => w.answer ctx (conflict "pane-gone")
  | some .busy => w.answer ctx (refuse 503 .busy "pane busy")
  -- Requested. The thread's `model` changes only when a later source reports it.
  | some (.done .sent) => w.commit [] ctx thread.id
  | some (.done (.blocked ..)) =>
    w.answer ctx (.refused 409 .conflict "blocked" false (some thread.id) none)
  | some (.done (.stalled ..)) =>
    w.answer ctx (.refused 409 .conflict "stalled" true (some thread.id) none)
  | some (.done (.error error textDelivered)) =>
    w.answer ctx (.refused 502 .failed error textDelivered (some thread.id) none)

end World

end Sightr
