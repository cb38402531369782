import Sightr.Dispatch.Queue
import Sightr.Send.Guarded

/-!
# The dispatcher's state

What `bridge/threads/dispatch.ts`, `queue-drain.ts` and `live-modes.ts` keep between two turns of the
event loop: the store, the drainer's states and timers, and every handler, pass and steer that is
suspended at an `await`, with what it captured. Everything between two awaits runs without
interruption; a microtask that only defers a call is a suspended task too.
-/

namespace Sightr

open Projection

/-! ### Results -/

inductive GuardedSendResult
  | noPane
  | busy
  | done (outcome : ReplyOutcome)
  deriving DecidableEq

inductive SkipReason
  | busy | paneGone
  deriving DecidableEq

def SkipReason.text : SkipReason → String
  | busy => "busy"
  | paneGone => "pane-gone"

inductive DeliverResult
  /-- Sent; `events` commit with the row's removal. -/
  | sent (events : List EventDraft)
  | skipped (reason : SkipReason)
  | failed (reason message : String)
  /-- An error after the text reached the box, unsubmitted. -/
  | delivered (message : String)
  deriving DecidableEq

def DeliverResult.isSent : DeliverResult → Bool
  | sent _ => true
  | _ => false

/-- The row is done with: its text is out, or in the box. -/
def DeliverResult.isDone : DeliverResult → Bool
  | sent _ | delivered _ => true
  | _ => false

inductive SettleWait
  | settled | timeout | gone
  deriving DecidableEq

inductive V2ErrorCode
  | notFound | conflict | invalid | unsupported | busy | failed
  deriving DecidableEq

inductive EffectOutcome
  | ok (sequence : Nat) (threadId : String)
  | refused (status : Nat) (code : V2ErrorCode) (error : String) (afterWork : Bool) (threadId shown : Option String)
  deriving DecidableEq

def refuse (status : Nat) (code : V2ErrorCode) (error : String) : EffectOutcome :=
  .refused status code error false none none

def notFound (what : String) : EffectOutcome := refuse 404 .notFound what

def conflict (why : String) : EffectOutcome := refuse 409 .conflict why

def invalid (why : String) : EffectOutcome := refuse 400 .invalid why

structure EffectContext where
  commandId : String
  receipt : String × Option String
  deriving DecidableEq

inductive InterruptResult
  | ok
  | refused (outcome : EffectOutcome)
  | maintenance
  deriving DecidableEq

/-! ### Suspended tasks -/

inductive SendPath
  | start
  | drained (rowId : String)
  | steer (rowId : String)
  deriving DecidableEq

def SendPath.row? : SendPath → Option String
  | start => none
  | drained rowId | steer rowId => some rowId

inductive InterruptStage
  | turn
  | compacting
  | keys
  | pressed (result : InterruptResult)
  deriving DecidableEq

/-- Where a `message.dispatch` waits. `enqueueReady` keeps the queue it read. -/
inductive DispatchStage
  | startBackground
  | enqueueReady (rows : List QueuedMessage)
  | steerBackground
  | sending (ref mark : Nat)
  deriving DecidableEq

inductive SteerStage
  | background (thread : ServerThread)
  | interrupting (thread : ServerThread) (stage : InterruptStage)
  | waiting (thread : ServerThread) (waiter : Nat) (due : Int)
  | backgroundAgain (thread : ServerThread)
  | sending (thread : ServerThread) (row : QueuedMessage) (ref mark : Nat)
  deriving DecidableEq

/-- Where a drain pass waits. `passRef` is the state object it took at its start. -/
inductive PassStage
  | restart (thread : ServerThread)
  | ready (thread : ServerThread) (row : QueuedMessage) (passRef : Nat)
  | sending (thread : ServerThread) (row : QueuedMessage) (passRef ref mark : Nat)
  deriving DecidableEq

inductive Task
  | schedule (threadId : String)
  | holdClosed (threadId : String)
  | dispatch (ctx : EffectContext) (thread : ServerThread) (text : String)
      (attachments : List ChatAttachment) (stage : DispatchStage)
  | steer (threadId rowId : String) (press : Bool) (stage : SteerStage)
  | pass (threadId : String) (stage : PassStage)
  | interrupt (ctx : EffectContext) (thread : ServerThread) (stage : InterruptStage)
  | permissionMode (ctx : EffectContext) (thread : ServerThread) (mode : String) (ref mark : Nat)
  | model (ctx : EffectContext) (thread : ServerThread) (ref mark : Nat)
  deriving DecidableEq

/-! ### The drainer -/

/-- After a send, how long to wait for its run to show before the next row may go anyway. -/
def RUN_WAIT_MS : Int := 20000

def DRAIN_RETRY_MS : Int := 5000

/-- This many failed sends of one row in a row hold it. -/
def MAX_DRAIN_FAILURES : Nat := 3

def RESTART_HOLD_REASON : String := "restart"

def AUTO_RESUME_REASON : String := "auto"

/-- A message is being sent or was sent; its timer runs once it was sent. -/
structure Mark where
  id : Nat
  sawWorking : Bool := false
  due : Option Int := none
  deriving DecidableEq

structure DrainState where
  failures : Nat := 0
  awaiting : Option Mark := none
  retry : Option Int := none
  deriving DecidableEq

structure Waiter where
  id : Nat
  threadId : String
  resolved : Option SettleWait
  deriving DecidableEq

structure Drainer where
  /-- The state object of each thread that has one. -/
  states : String → Option Nat
  heap : Nat → DrainState
  nextRef : Nat
  nextMark : Nat
  queuedPass : List String
  waiters : List Waiter
  nextWaiter : Nat

namespace Drainer

def empty : Drainer where
  states := fun _ => none
  heap := fun _ => {}
  nextRef := 0
  nextMark := 0
  queuedPass := []
  waiters := []
  nextWaiter := 0

variable (d : Drainer)

def modify (ref : Nat) (f : DrainState → DrainState) : Drainer :=
  { d with heap := Function.update d.heap ref (f (d.heap ref)) }

variable (threadId : String)

def modifyOf (f : DrainState → DrainState) : Drainer :=
  match d.states threadId with
  | none => d
  | some ref => d.modify ref f

def stateOf : Drainer × Nat :=
  match d.states threadId with
  | some ref => (d, ref)
  | none =>
    ({ d with
        states := Function.update d.states threadId (some d.nextRef)
        heap := Function.update d.heap d.nextRef {}
        nextRef := d.nextRef + 1 }, d.nextRef)

def awaiting (d : Drainer) (threadId : String) : Option Mark :=
  (d.states threadId).bind fun ref => (d.heap ref).awaiting

def clearAwaiting : Drainer := d.modifyOf threadId fun s => { s with awaiting := none }

def clearRetry : Drainer := d.modifyOf threadId fun s => { s with retry := none }

def forget : Drainer :=
  let d := (d.clearAwaiting threadId).clearRetry threadId
  { d with states := Function.update d.states threadId none }

def seeWorking : Drainer :=
  d.modifyOf threadId fun s =>
    { s with awaiting := s.awaiting.map fun mark => { mark with sawWorking := true } }

/-- Begin a send: the new drainer, the thread's state object and the send's mark. -/
def beginSend : Drainer × Nat × Nat :=
  let (d, ref) := (d.clearAwaiting threadId).stateOf threadId
  let d := d.modify ref fun s => { s with awaiting := some { id := d.nextMark } }
  ({ d with nextMark := d.nextMark + 1 }, ref, d.nextMark)

/-- The closure `beginSend` returns, called with whether the message was sent. -/
def finishSend (ref mark : Nat) (sent : Bool) (status : ThreadStatus) (now : Int) : Drainer :=
  match (d.heap ref).awaiting with
  | none => d
  | some current =>
    if current.id ≠ mark then d
    else if !sent then d.modify ref fun s => { s with awaiting := none }
    else if current.sawWorking && isSettled status then
      -- The whole run went by while the send was still verifying.
      d.modify ref fun s => { s with awaiting := none }
    else
      d.modify ref fun s => { s with awaiting := some { current with due := some (now + RUN_WAIT_MS) } }

def backOff (now : Int) : Drainer :=
  let (d, ref) := d.stateOf threadId
  if (d.heap ref).retry.isSome then d
  else d.modify ref fun s => { s with retry := some (now + DRAIN_RETRY_MS) }

def notifyWaiters (why : SettleWait) : Drainer :=
  { d with
    waiters := d.waiters.map fun waiter =>
      if waiter.threadId = threadId && waiter.resolved.isNone then { waiter with resolved := some why }
      else waiter }

def addWaiter (resolved : Option SettleWait) : Drainer :=
  { d with
    waiters := d.waiters ++ [{ id := d.nextWaiter, threadId, resolved }]
    nextWaiter := d.nextWaiter + 1 }

def dropWaiter (id : Nat) : Drainer := { d with waiters := d.waiters.filter (·.id ≠ id) }

/-- Queue a pass for the thread; queued ones coalesce. -/
def schedule : Drainer :=
  if d.queuedPass.contains threadId then d
  else { d with queuedPass := d.queuedPass ++ [threadId] }

end Drainer

/-! ### The world -/

/-- What the log keeps, for the statements about runs. -/
inductive Obs
  | committed (event : StoredEvent)
  | accepted (threadId rowId : String)
  | cancelled (rowId : String)
  /-- A message was handed to the guarded sender, with the store as it was then. -/
  | handed (mark : Nat) (threadId : String) (path : SendPath) (db : Db) (now : Int)
  | reported (mark : Nat) (path : SendPath) (result : DeliverResult) (now : Int)
  | pressed (threadId : String) (now : Int)
  /-- A handler's answer to its command; none when it threw. -/
  | answered (commandId : String) (outcome : Option EffectOutcome)

structure World where
  db : Db
  now : Int
  drainer : Drainer
  /-- Threads whose interrupt key went out while `working`, and when. -/
  interrupting : String → Option Int
  tasks : List Task
  issued : List String
  log : List Obs

namespace World

def getThread (w : World) (id : String) : Option ServerThread := w.db.projection.getThread id

def getQueued (w : World) (id : String) : Option QueuedMessage := w.db.projection.getQueued id

def listQueued (w : World) (threadId : String) : List QueuedMessage := w.db.projection.listQueued threadId

def hasOpenRequest (w : World) (threadId : String) : Bool := w.db.projection.hasOpenRequest threadId

variable (w : World)

def spawn (task : Task) : World := { w with tasks := w.tasks ++ [task] }

def observe (obs : Obs) : World := { w with log := obs :: w.log }

def answer (ctx : EffectContext) (outcome : EffectOutcome) : World :=
  w.observe (.answered ctx.commandId (some outcome))

def threw (ctx : EffectContext) : World := w.observe (.answered ctx.commandId none)

/-! ### Committed events -/

def statusOf : ServerPayload → Option ThreadStatus
  | .threadUpdated patch _ =>
    match patch.status with
    | .val status => some status
    | _ => none
  | _ => none

variable (threadId : String)

def drainOn : ServerPayload → World
  | .threadUpdated patch at_ =>
    match statusOf (.threadUpdated patch at_) with
    | none => w
    | some status =>
      if status = .working then { w with drainer := w.drainer.seeWorking threadId }
      else if !isSettled status then w
      else
        let drainer := if (w.drainer.awaiting threadId).any (·.sawWorking)
          then w.drainer.clearAwaiting threadId else w.drainer
        { w with drainer := drainer.notifyWaiters threadId .settled }.spawn (.schedule threadId)
  | .runEnded .. =>
    -- Only a run that began after the send counts.
    if (w.drainer.awaiting threadId).any (·.sawWorking) then
      { w with drainer := w.drainer.clearAwaiting threadId }.spawn (.schedule threadId)
    else w
  | .threadArchived .. =>
    { w with drainer := (w.drainer.forget threadId).notifyWaiters threadId .gone }.spawn (.holdClosed threadId)
  | .runtimeRequestUpdated request _ =>
    if request.status ≠ .pending then w.spawn (.schedule threadId) else w
  | .queueUpdated _ change _ =>
    if change ∈ [some .added, some .resumed, some .reordered, some .edited] then
      w.spawn (.schedule threadId)
    else w
  | _ => w

/-- The dispatcher's listener on one event of a thread. -/
def interruptOn (payload : ServerPayload) : World :=
  if payload.type = .threadArchived || (statusOf payload).any (· ≠ .working) then
    { w with interrupting := Function.update w.interrupting threadId none }
  else w

def onEvent (event : StoredEvent) : World :=
  let w := w.observe (.committed event)
  match event.threadId.filter (· ≠ "") with
  | none => w
  | some threadId => (w.drainOn threadId event.payload).interruptOn threadId event.payload

def append (w : World) (drafts : List EventDraft) (options : AppendOptions := {}) : Option World :=
  match w.db.append { drafts, options, ts := w.now } with
  | .error _ => none
  | .ok (db, events) => some (events.foldl onEvent { w with db })

/-! ### Sends -/

/-- Begin a send and hand its message to the guarded sender; `task` waits for the answer. -/
def send (path : SendPath) (task : Nat → Nat → Task) : World :=
  let (drainer, ref, mark) := w.drainer.beginSend threadId
  ({ w with drainer }.observe (.handed mark threadId path w.db w.now)).spawn (task ref mark)

def sendBack (path : SendPath) (ref mark : Nat) (result : DeliverResult) : World :=
  let status := ((w.getThread threadId).map (·.status)).getD .idle
  { w with drainer := w.drainer.finishSend ref mark result.isSent status w.now }.observe
    (.reported mark path result w.now)

def schedule (w : World) (threadId : String) : World := { w with drainer := w.drainer.schedule threadId }

def backOff (w : World) (threadId : String) : World := { w with drainer := w.drainer.backOff threadId w.now }

end World

end Sightr
