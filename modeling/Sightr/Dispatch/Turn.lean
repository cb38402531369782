import Sightr.Dispatch.Commit

/-!
# What a turn is made of

One turn of the event loop runs a handler from one await to the next. Whatever the handler, its turn is a
chain of a few kinds of parts: a task is taken up and may wait again, a queue is rewritten, a row is
added, a send begins or comes back. A property of the dispatcher is proved part by part; that every
turn is such a chain is proved once, for all of them.
-/

namespace Sightr

open Projection

/-! ### Tasks -/

namespace Task

/-- The send the task waits for: its thread, its path, the drainer's state object and mark. -/
def sending : Task → Option (String × SendPath × Nat × Nat)
  | dispatch _ thread _ _ (.sending ref mark) => some (thread.id, .start, ref, mark)
  | steer threadId rowId _ (.sending _ _ ref mark) => some (threadId, .steer rowId, ref, mark)
  | pass threadId (.sending _ row _ ref mark) => some (threadId, .drained row.id, ref, mark)
  | _ => none

def switching : Task → Option (String × Nat × Nat)
  | permissionMode _ thread _ ref mark => some (thread.id, ref, mark)
  | model _ thread ref mark => some (thread.id, ref, mark)
  | _ => none

def mayPress (threadId : String) : Task → Bool
  | interrupt _ _ (.pressed _) => false
  | interrupt _ thread _ => thread.id = threadId
  | steer _ _ true (.background thread) => thread.id = threadId
  | steer _ _ _ (.interrupting _ (.pressed _)) => false
  | steer _ _ _ (.interrupting thread _) => thread.id = threadId
  | _ => false

/-- The thread whose interrupt keys the task is writing. -/
def writesKeys : Task → Option String
  | interrupt _ thread .keys => some thread.id
  | steer _ _ _ (.interrupting thread .keys) => some thread.id
  | _ => none

theorem mayPress_of_writesKeys {task : Task} {threadId : String}
    (h : task.writesKeys = some threadId) : task.mayPress threadId = true := by
  unfold writesKeys at h
  split at h <;> cases h <;> simp [mayPress]

def steers (rowId : String) : Task → Bool
  | steer _ id _ _ => id = rowId
  | _ => false

inductive GoesOn : Task → Task → Prop
  | interrupt (ctx : EffectContext) (thread : ServerThread) (stage stage' : InterruptStage) :
    GoesOn (.interrupt ctx thread stage) (.interrupt ctx thread stage')
  | steer (threadId rowId : String) (press : Bool) (stage stage' : SteerStage) :
    GoesOn (.steer threadId rowId press stage) (.steer threadId rowId press stage')

end Task

def World.Answer.isSent : World.Answer → Bool
  | .send (.done .sent) => true
  | _ => false

def World.Answer.isDone : World.Answer → Bool
  | .send (.done .sent) | .send (.done (.error _ true)) => true
  | _ => false

/-- Nothing was typed, and nothing is wrong with the message. -/
def World.Answer.isSkipped : World.Answer → Bool
  | .send .noPane | .send .busy => true
  | _ => false

/-! ### What an action is about to do -/

namespace World

def archived (w : World) (threadId : String) : Bool := (w.getThread threadId).any (·.shelf = .archived)

variable (w : World)

/-- The thread is there, on a live shelf, and nothing waits on the operator. -/
def takesMessages (threadId : String) : Bool :=
  (w.getThread threadId).any fun thread => thread.shelf ≠ .archived && !w.blocked thread

/-- A pass that read the composer takes the row it chose. -/
def passTakes (threadId rowId : String) : Bool :=
  let current := w.listQueued threadId
  (w.getThread threadId).any (fun fresh => fresh.shelf ≠ .archived && isSettled fresh.status) &&
    (w.drainer.awaiting threadId).isNone &&
    (current.find? (·.id = rowId)).any (·.state = .queued) && !current.any (·.state = .sending) &&
    (current.find? (·.state = .queued)).map (·.id) = some rowId

def steerSends (threadId rowId : String) : Bool :=
  (w.getThread threadId).any (·.shelf ≠ .archived) && (w.getQueued rowId).any (·.state = .sending)

/-- The thread whose mode or model the action sets out to switch. -/
def beginsSwitch : Action → Option String
  | .command (.permissionModeSet threadId mode confirmBypass) _ _ =>
    (w.permissionModeCheck threadId mode confirmBypass).toOption.map (·.id)
  | .command (.modelSet threadId model) _ _ => (w.modelCheck threadId model).toOption.map (·.id)
  | _ => none

/-- The thread onto whose queue a task that waited writes a row that is not held. -/
def writesBack : Action → Option String
  | .resume i answer _ =>
    match w.tasks[i]?, answer with
    | some (.dispatch _ thread _ _ (.enqueueReady _)), .composer (some false) => some thread.id
    | some (.dispatch _ thread _ _ .steerBackground), .screen false =>
      if w.pressedRecently thread.id || (w.interruptRefusal thread).isNone then some thread.id else none
    | some (.steer threadId rowId _ (.interrupting _ (.pressed .maintenance))), .go =>
      if (w.getQueued rowId).isSome then some threadId else none
    | some (.pass threadId (.sending _ row passRef _ _)), answer =>
      if (w.getQueued row.id).isSome && !answer.isDone &&
          (answer.isSkipped || (w.drainer.heap passRef).failures + 1 < MAX_DRAIN_FAILURES) then
        some threadId
      else none
    | _, _ => none
  | _ => none

end World

/-! ### The drainer's states -/

namespace Drainer

structure Ok (d : Drainer) : Prop where
  injective : ∀ id id' ref, d.states id = some ref → d.states id' = some ref → id = id'
  lt : ∀ id ref, d.states id = some ref → ref < d.nextRef
  awaiting : ∀ ref, (d.heap ref).awaiting ≠ none → ∃ id, d.states id = some ref

/-- No wait and no state object is touched: only timers, counts and waiters. -/
structure Quieter (d d' : Drainer) : Prop where
  ok : d'.Ok
  nextMark : d'.nextMark = d.nextMark
  heap : ∀ ref, (d'.heap ref).awaiting = (d.heap ref).awaiting
  awaiting : ∀ id, d'.awaiting id = d.awaiting id

def Quiet (d d' : Drainer) : Prop := d.Ok → d.Quieter d'

end Drainer

/-! ### Turns -/

structure Turn where
  /-- The state the turn began in, and the action it is for. -/
  start : World
  action : Action
  world : World
  running : Option Task := none
  /-- An id handed out in this turn and not used yet. -/
  fresh : Option String := none

namespace Turn

variable (t : Turn)

/-- The turn just resumed the task with the answer; the drainer's timers aside, nothing else happened. -/
def Resumes (task : Task) (answer : World.Answer) : Prop :=
  t.running = some task ∧ ∃ i newId drainer, t.action = .resume i answer newId ∧
    t.start.tasks[i]? = some task ∧ t.start.drainer.Quiet drainer ∧
    t.world = { (t.start.take i).issue newId with drainer }

/-- The tasks are those the turn began with, and deferred ones. -/
def KeepsTasks : Prop := ∀ task ∈ t.world.tasks, task ∈ t.start.tasks ∨ ∃ id, task = .schedule id

/-- A row that is not held may be written to the thread's queue. -/
def Frees (threadId : String) : Prop :=
  t.world.archived threadId = false ∨ t.start.writesBack t.action = some threadId

inductive Spawns (t : Turn) : Task → Prop
  | dispatch {ctx : EffectContext} {thread : ServerThread} {text : String}
      {attachments : List ChatAttachment} {stage : DispatchStage} (hrun : t.running = none)
      (hstage : stage = .startBackground ∨ stage = .steerBackground ∨ stage = .enqueueReady []) :
    Spawns t (.dispatch ctx thread text attachments stage)
  | pass {threadId : String} {stage : PassStage} (hrun : t.running = none)
      (hpass : ∀ task ∈ t.world.tasks, task.isPassOf threadId = false)
      (hsend : (Task.pass threadId stage).sending = none) : Spawns t (.pass threadId stage)
  | interrupt {ctx : EffectContext} {thread : ServerThread} (hrun : t.running = none)
      (hpress : t.world.pressedRecently thread.id = false) : Spawns t (.interrupt ctx thread .turn)
  | goesOn {task task' : Task} (hrun : t.running = some task) (hgoes : task.GoesOn task')
      (hsend : task.sending = none) (hsend' : task'.sending = none)
      (hpress : ∀ id, task'.mayPress id = true → task.mayPress id = true) : Spawns t task'

/-- A message may be handed to the guarded sender; `task` then waits for the answer. -/
inductive Sends (t : Turn) : String → SendPath → (Nat → Nat → Task) → Prop
  | start {ctx : EffectContext} {thread : ServerThread} {text : String}
      {attachments : List ChatAttachment} (hrun : t.running = none)
      (htakes : t.world.takesMessages thread.id = true) :
    Sends t thread.id .start fun ref mark => .dispatch ctx thread text attachments (.sending ref mark)
  | waited {ctx : EffectContext} {thread : ServerThread} {text : String}
      {attachments : List ChatAttachment} {stage : DispatchStage} {answer : World.Answer}
      (hresumes : t.Resumes (.dispatch ctx thread text attachments stage) answer)
      (hsend : (stage = .startBackground ∨ stage = .steerBackground) ∧ answer = .screen true ∨
        ∃ rows ready, stage = .enqueueReady rows ∧ answer = .composer ready ∧ ready ≠ some false) :
    Sends t thread.id .start fun ref mark => .dispatch ctx thread text attachments (.sending ref mark)
  | steer {threadId rowId : String} {press : Bool} {stage : SteerStage} {answer : World.Answer}
      {fresh : ServerThread} {row : QueuedMessage}
      (hresumes : t.Resumes (.steer threadId rowId press stage) answer)
      (hsend : (∃ thread, stage = .background thread ∨ stage = .backgroundAgain thread) ∧ answer = .screen true ∨
        ∃ thread waiter due, stage = .waiting thread waiter due ∧ answer = .go ∧
          t.start.waitOver waiter due = some .settled)
      (hsends : t.start.steerSends threadId rowId = true)
      (hfresh : t.start.getThread threadId = some fresh) (hrow : t.start.getQueued rowId = some row) :
    Sends t threadId (.steer rowId) fun ref mark =>
      .steer threadId rowId press (.sending fresh row ref mark)
  | drained {threadId : String} {thread fresh : ServerThread} {row still : QueuedMessage}
      {i passRef : Nat} {newId : String} (haction : t.action = .resume i (.composer (some true)) newId)
      (htask : t.start.tasks[i]? = some (.pass threadId (.ready thread row passRef)))
      (hrun : t.running = some (.pass threadId (.ready thread row passRef)))
      (htakes : t.start.passTakes threadId row.id = true)
      (hthreads : t.world.db.projection.threads = t.start.db.projection.threads)
      (hrequests : t.world.db.projection.runtimeRequests = t.start.db.projection.runtimeRequests)
      (hdrainer : t.world.drainer = t.start.drainer) (htasks : t.KeepsTasks)
      (hfresh : t.start.getThread threadId = some fresh) (hstill : still.id = row.id)
      (hrow : ∃ r, t.world.getQueued row.id = some r ∧ r.threadId = threadId) :
    Sends t threadId (.drained row.id) fun ref mark =>
      .pass threadId (.sending fresh still passRef ref mark)

/-- The rows are the thread's queue with some of them rewritten. -/
structure Edits (t : Turn) (threadId : String) (rows : List QueuedMessage) : Prop where
  kept : ∀ r ∈ t.world.listQueued threadId, ∃ r' ∈ rows, r'.id = r.id
  old : ∀ r' ∈ rows, ∃ r ∈ t.world.listQueued threadId, r.id = r'.id
  held : ∀ r' ∈ rows, r'.state = .held ∨
    (∃ r ∈ t.world.listQueued threadId, r.id = r'.id ∧ r.state = r'.state) ∨ t.Frees threadId

def Without (w : World) (threadId rowId : String) (rows : List QueuedMessage) : Prop :=
  (∀ r, r ∈ rows ↔ r ∈ w.listQueued threadId ∧ r.id ≠ rowId) ∧ (rows.map (·.id)).Nodup

/-- Beside an answer and the drainer's timers, nothing happens. -/
structure Aside (w w' : World) : Prop where
  db : w'.db = w.db
  now : w'.now = w.now
  interrupting : w'.interrupting = w.interrupting
  issued : w'.issued = w.issued
  tasks : w'.tasks = w.tasks
  drainer : w.drainer.Quiet w'.drainer
  log : ∃ answers : List (String × Option EffectOutcome), w'.log = answers.map (fun a => .answered a.1 a.2) ++ w.log

/-- The tasks an added row leaves: none, or the row's background steer. -/
def Follows (threadId rowId : String) (extra : List Task) : Prop :=
  extra = [] ∨ ∃ press thread, extra = [.steer threadId rowId press (.background thread)] ∧
    thread.id = threadId ∧ (press = true → t.world.pressedRecently threadId = false)

/-- The notices beside a removed row are about its thread. -/
def NoticesOf (threadId : String) (drafts : List EventDraft) : Prop :=
  ∀ draft ∈ drafts, isDispatchNotice draft = true ∧
    ∀ item, draft.payload = .turnItemUpdated item → item.threadId = threadId

/-- The thread a sending task sends to is the one it was taken for. -/
def SendsTo : Task → Prop
  | .steer threadId _ _ (.sending thread ..) => thread.id = threadId
  | .pass threadId (.sending thread ..) => thread.id = threadId
  | _ => True

inductive Part : Turn → Turn → Prop
  | aside {t : Turn} {w : World} (h : Aside t.world w) : Part t { t with world := w }
  | later {t : Turn} (ms : Nat) : Part t { t with world := { t.world with now := t.world.now + ms } }
  | issue {t : Turn} {newId : String} (hnew : newId ∉ t.world.issued) (hfresh : t.fresh = none) :
    Part t { t with world := t.world.issue newId, fresh := some newId }
  | take {t : Turn} {i : Nat} {task : Task} (htask : t.world.tasks[i]? = some task)
      (hrun : t.running = none) : Part t { t with world := t.world.take i, running := some task }
  | ended {t : Turn} (hsend : ∀ task ∈ t.running, task.sending = none) :
    Part t { t with running := none, fresh := none }
  | spawn {t : Turn} {task : Task} (h : t.Spawns task) :
    Part t { t with world := t.world.spawn task, running := none }
  | send {t : Turn} {threadId : String} {path : SendPath} {task : Nat → Nat → Task} (h : t.Sends threadId path task) :
    Part t { t with world := t.world.send threadId path task, running := none }
  /-- A send came back that leaves its row in the queue, or has none. -/
  | sendBack {t : Turn} {task : Task} {answer : World.Answer} {threadId : String} {path : SendPath}
      {ref mark : Nat} {result : DeliverResult} (hresumes : t.Resumes task answer)
      (hsending : task.sending = some (threadId, path, ref, mark))
      (hsent : result.isSent = answer.isSent) (hrow : path.row? = none ∨ result.isDone = false) :
    Part t { t with world := t.world.sendBack threadId path ref mark result, running := none }
  | rowDone {t : Turn} {task : Task} {answer : World.Answer} {threadId rowId : String}
      {path : SendPath} {ref mark : Nat} {result : DeliverResult} {w : World}
      {rows : List QueuedMessage} {before after : List EventDraft} {change : Option QueueChange}
      (hresumes : t.Resumes task answer)
      (hsending : task.sending = some (threadId, path, ref, mark))
      (hsent : result.isSent = answer.isSent) (hrow : path.row? = some rowId)
      (hdone : result.isDone = true)
      (haside : Aside (t.world.sendBack threadId path ref mark result) w)
      (hrows : Without w threadId rowId rows)
      (hbefore : SendsTo task → NoticesOf threadId before)
      (hafter : NoticesOf threadId after) (hnotices : ∀ draft ∈ before, isDispatchNotice draft = true) :
    Part t { t with
      world := (w.append (before ++ queueEvent threadId rows change :: after)).getD w
      running := none }
  | beginSwitch {t : Turn} {threadId : String} {task : Nat → Nat → Task}
      (hrun : t.running = none) (hbegins : t.start.beginsSwitch t.action = some threadId)
      (hdrainer : t.world.drainer = t.start.drainer)
      (htask : ∀ ref mark, (task ref mark).switching = some (threadId, ref, mark)) :
    Part t { t with world := t.world.beginSwitch threadId task }
  | endSwitch {t : Turn} {task : Task} {threadId : String} {ref mark : Nat}
      (hrun : t.running = some task) (hswitch : task.switching = some (threadId, ref, mark)) :
    Part t { t with world := t.world.endSwitch threadId ref mark, running := none }
  | rewrote {t : Turn} {threadId : String} {rows : List QueuedMessage} {w : World}
      (h : World.Rewrote t.world threadId rows w) (hrows : t.Edits threadId rows) :
    Part t { t with world := w }
  /-- A dispatch adds its row to the queue it read. -/
  | added {t : Turn} {threadId : String} {base rows : List QueuedMessage} {row : QueuedMessage}
      {w w' : World} {extra : List Task} (hsend : ∀ task ∈ t.running, task.sending = none)
      (hid : t.fresh = some row.id)
      (hbase : base = t.world.listQueued threadId ∨ ∃ ctx thread text attachments, thread.id = threadId ∧ t.Resumes
          (.dispatch ctx thread text attachments (.enqueueReady base)) (.composer (some false)))
      (hrows : ∀ r, r ∈ rows ↔ r = row ∨ r ∈ base) (hfrees : t.Frees threadId)
      (h : World.Rewrote t.world threadId rows w) (haside : Aside w w')
      (hextra : t.Follows threadId row.id extra) :
    Part t { t with
      world := { w'.observe (.accepted threadId row.id) with tasks := w'.tasks ++ extra }
      running := none, fresh := none }
  | cancelled {t : Turn} {threadId rowId : String} {rows : List QueuedMessage} {w w' : World}
      (hrows : Without t.world threadId rowId rows) (h : World.Rewrote t.world threadId rows w)
      (haside : Aside w w') : Part t { t with world := w'.observe (.cancelled rowId) }
  | noted {t : Turn} {w : World} (h : World.Noted t.world w) : Part t { t with world := w }
  /-- The interrupt keys went out; the handler waits to go on. -/
  | press {t : Turn} {task task' : Task} {threadId : String} (hresumes : t.Resumes task (.key true))
      (hgoes : task.GoesOn task') (hpress : task.writesKeys = some threadId)
      (hsend : task.sending = none) (hsend' : task'.sending = none)
      (hpress' : ∀ id, task'.mayPress id = false) :
    Part t { t with
      world := ({ t.world with
        interrupting := Function.update t.world.interrupting threadId (some t.world.now) }.observe
          (.pressed threadId t.world.now)).spawn task'
      running := none }
  | outside {t : Turn} {drafts : List EventDraft} {options : AppendOptions} {w : World}
      (haction : t.action = .environment drafts options)
      (hqueue : ∀ draft ∈ drafts, draft.payload.type ≠ .queueUpdated)
      (hstart : t.world = t.start) (h : t.world.append drafts options = some w) :
    Part t { t with world := w }
  | waitFired {t : Turn} {threadId : String} (hdue : t.world.drainer.waitDue threadId t.world.now = true) :
    Part t { t with
      world := { t.world with drainer := t.world.drainer.clearAwaiting threadId } }

def begin (w : World) (a : Action) : Turn := { start := w, action := a, world := w }

abbrev Parts : Turn → Turn → Prop := Relation.ReflTransGen Part

theorem start_of_part {t t' : Turn} (h : Part t t') : t'.start = t.start ∧ t'.action = t.action := by
  cases h <;> exact ⟨rfl, rfl⟩

theorem parts_invariant {C : World → Action → Prop} {P : Turn → Prop}
    (hpart : ∀ t t', P t → C t.start t.action → Part t t' → P t') {t t' : Turn}
    (hC : C t.start t.action) (h : Parts t t') (hP : P t) : P t' := by
  have hboth : P t' ∧ t'.start = t.start ∧ t'.action = t.action := by
    induction h with
    | refl => exact ⟨hP, rfl, rfl⟩
    | tail _ hstep ih =>
      obtain ⟨hm, hs, ha⟩ := ih
      obtain ⟨hs', ha'⟩ := start_of_part hstep
      exact ⟨hpart _ _ hm (by rw [hs, ha]; exact hC) hstep, hs'.trans hs, ha'.trans ha⟩
  exact hboth.1

end Turn

end Sightr
