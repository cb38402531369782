import Sightr.Dispatch.Handlers
import Sightr.Lib.Runs

/-!
# The dispatcher as a machine

Commands arrive, awaits are answered, timers fire and the rest of the bridge commits its own batches, in
any order. Whatever happens next is an action; between two actions nothing runs. A batch of the rest of
the bridge carries no queue: only the dispatcher and the drainer write those.
-/

namespace Sightr

/-- What can happen next. `newId` is what `newId` would give in that turn. -/
inductive Action
  | command (command : DispatchCommand) (ctx : EffectContext) (newId : String)
  | environment (drafts : List EventDraft) (options : AppendOptions)
  | tick (ms : Nat)
  | resume (task : Nat) (answer : World.Answer) (newId : String)
  /-- A queued pass begins, the one before it being over. -/
  | startPass (threadId : String)
  | retryFires (threadId : String)
  | runWaitFires (threadId : String)
  deriving DecidableEq

def Task.isPassOf (threadId : String) : Task → Bool
  | .pass id _ => id = threadId
  | _ => false

namespace Drainer

def beginPass (d : Drainer) (threadId : String) : Drainer :=
  { d with queuedPass := d.queuedPass.filter (· ≠ threadId) }.clearRetry threadId

def retryDue (d : Drainer) (threadId : String) (now : Int) : Bool :=
  ((d.states threadId).bind fun ref => (d.heap ref).retry).any (· ≤ now)

def waitDue (d : Drainer) (threadId : String) (now : Int) : Bool :=
  ((d.awaiting threadId).bind (·.due)).any (· ≤ now)

end Drainer

namespace World

variable (w : World)

def command (ctx : EffectContext) (newId : String) : DispatchCommand → World
  | .messageDispatch threadId text attachments mode => w.dispatch threadId text attachments mode ctx newId
  | .runInterrupt threadId => w.runInterrupt threadId ctx
  | .queuedReorder threadId ids => w.reorder threadId ids ctx
  | .queuedEdit id text => w.edit id text ctx
  | .queuedCancel id => w.cancel id ctx
  | .queueResume threadId => w.resumeQueue threadId ctx
  | .permissionModeSet threadId mode confirmBypass => w.setPermissionMode threadId mode confirmBypass ctx
  | .modelSet threadId model => w.setModel threadId model ctx

def dispatchOn (ctx : EffectContext) (thread : ServerThread) (text : String)
    (attachments : List ChatAttachment) (newId : String) : DispatchStage → Answer → Option World
  | .startBackground, .screen true => some (w.startPath thread text attachments ctx)
  | .startBackground, .screen false => some (w.answer ctx (conflict "thread-busy"))
  | .enqueueReady rows, .composer ready =>
    some (w.enqueueReady thread text attachments ctx rows ready newId)
  | .enqueueReady _, .threw _ => some (w.threw ctx)
  | .steerBackground, .screen true => some (w.startPath thread text attachments ctx)
  | .steerBackground, .screen false => some (w.steerRow thread text attachments ctx newId)
  | .sending ref mark, .send result =>
    some (w.startSent thread ctx ref mark (deliverResult thread text attachments .turnStart w.now newId result))
  | .sending ref mark, .threw message =>
    some ((w.sendBack thread.id .start ref mark (.failed "error" message)).threw ctx)
  | _, _ => none

def steerOn (threadId rowId : String) (press : Bool) (newId : String) : SteerStage → Answer → Option World
  | .background thread, .screen waiting =>
    some (w.steerBackground threadId rowId press thread waiting)
  | .interrupting thread (.pressed result), .go =>
    some (w.steerPressed threadId rowId press thread result)
  | .interrupting thread stage, answer =>
    (w.sendInterrupt thread true stage answer).map fun (w, stage) =>
      w.spawn (.steer threadId rowId press (.interrupting thread stage))
  | .waiting thread waiter due, .go =>
    (w.waitOver waiter due).map fun why => w.steerWaited threadId rowId press thread waiter why
  | .backgroundAgain _, .screen waiting => some (w.steerTimedOut threadId rowId press waiting)
  | .sending thread row ref mark, .send result =>
    some (w.steerSent threadId rowId ref mark
      (deliverResult thread row.text row.attachments .steer w.now newId result))
  | .sending _ _ ref mark, .threw message =>
    some (w.steerSent threadId rowId ref mark (.failed "error" message))
  | _, _ => none

def passOn (threadId : String) (newId : String) : PassStage → Answer → Option World
  | .restart thread, .composer ready => some (w.passRestart thread ready)
  | .restart _, .threw _ => some w
  | .ready _ row passRef, .composer ready => some (w.passReady threadId row passRef ready)
  | .ready .., .threw _ => some w
  | .sending thread row passRef ref mark, .send result =>
    some (w.passSent threadId row passRef ref mark
      (deliverResult thread row.text row.attachments .queuedTurn w.now newId result))
  | .sending _ row passRef ref mark, .threw message =>
    some (w.passSent threadId row passRef ref mark (.failed "error" message))
  | _, _ => none

/-- A suspended task goes on with what its await was answered; none where that is no answer to it. -/
def goOn (newId : String) : Task → Answer → Option World
  | .schedule threadId, .go => some (w.schedule threadId)
  | .holdClosed threadId, .go => some (w.holdClosed threadId)
  | .dispatch ctx thread text attachments stage, answer =>
    w.dispatchOn ctx thread text attachments newId stage answer
  | .steer threadId rowId press stage, answer => w.steerOn threadId rowId press newId stage answer
  | .pass threadId stage, answer => w.passOn threadId newId stage answer
  | .interrupt ctx thread (.pressed result), .go => some (w.interruptPressed thread ctx result)
  | .interrupt ctx thread stage, answer =>
    (w.sendInterrupt thread false stage answer).map fun (w, stage) =>
      w.spawn (.interrupt ctx thread stage)
  | .permissionMode ctx thread mode ref mark, .paneTurn turn =>
    some (w.permissionModeSet thread mode ctx ref mark (some turn))
  | .permissionMode ctx thread mode ref mark, .threw _ =>
    some (w.permissionModeSet thread mode ctx ref mark none)
  | .model ctx thread ref mark, .send result => some (w.modelSent thread ctx ref mark (some result))
  | .model ctx thread ref mark, .threw _ => some (w.modelSent thread ctx ref mark none)
  | _, _ => none

def issue (newId : String) : World := { w with issued := newId :: w.issued }

def take (i : Nat) : World := { w with tasks := w.tasks.eraseIdx i }

def step : Action → Option World
  | .command c ctx newId =>
    if newId ∈ w.issued then none else some ((w.issue newId).command ctx newId c)
  | .environment drafts options =>
    if drafts.any (·.payload.type = .queueUpdated) then none else w.append drafts options
  | .tick ms => some { w with now := w.now + ms }
  | .resume i answer newId =>
    if newId ∈ w.issued then none
    else
      match w.tasks[i]? with
      | none => none
      | some task => ((w.take i).issue newId).goOn newId task answer
  | .startPass threadId =>
    if w.drainer.queuedPass.contains threadId && !w.tasks.any (·.isPassOf threadId) then
      some ({ w with drainer := w.drainer.beginPass threadId }.passStart threadId)
    else none
  | .retryFires threadId =>
    if w.drainer.retryDue threadId w.now then
      some ({ w with drainer := w.drainer.clearRetry threadId }.schedule threadId)
    else none
  | .runWaitFires threadId =>
    if w.drainer.waitDue threadId w.now then
      some ({ w with drainer := w.drainer.clearAwaiting threadId }.schedule threadId)
    else none

end World

end Sightr
