import Sightr.Client.Retry
import Sightr.Dispatch.Exclusive
import Sightr.Dispatch.Leaves
import Sightr.Store.Threads

/-!
# Steer now

`steerQueued` of `web2/src/state/composer.ts` sends a queued row's text as a steer, a message of its own, and cancels
the row once the steer is accepted. Between the two the drainer may send the row. The dispatcher runs as before; the
steer's request is handled when it arrives, unless its id has a receipt or a handler.
-/

namespace Sightr

/-! ### What a step does for the steer -/

namespace World

variable (w : World)

/-- The action ends a send on the start path, the message being out or in the box. -/
def startDone : Action → Bool
  | .resume i answer _ => (w.tasks[i]?).any (fun task => task.sending.any (·.2.1 = .start)) && answer.isDone
  | _ => false

/-- The row that the action leading here queued under its new id. -/
def queuedBy : Action → List String
  | .command _ _ newId | .resume _ _ newId => if (w.getQueued newId).isSome then [newId] else []
  | _ => []

def passTakesRow (rowId : String) : Action → Bool
  | .resume i (.composer (some true)) _ =>
    match w.tasks[i]? with
    | some (.pass threadId (.ready _ row _)) => row.id = rowId && w.passTakes threadId row.id
    | _ => false
  | _ => false

/-- No send of the row is under way or waits in a background steer, and none came back done. -/
def rests (rowId : String) : Bool := decide (deliveries rowId w.log = 0) && !w.tasks.any (·.claims rowId)

end World

namespace Client

/-! ### The client -/

/-- "Steer now" on a queued row: the row, its message as the client shows it, and the ids of the two commands. -/
structure SteerNow where
  threadId : String
  rowId : String
  text : String
  attachments : List ChatAttachment
  steer : EffectContext
  cancel : EffectContext
  distinct : cancel.commandId ≠ steer.commandId

/-- Where `steerQueued` waits; `second` once its first POST was rejected. -/
inductive SteerPhase
  | resting
  | steering (second : Bool)
  | cancelling (second : Bool)
  deriving DecidableEq

structure SteerWorld where
  world : World
  phase : SteerPhase
  steerPosted : Bool
  cancelPosted : Bool
  copies : List String
  /-- How many of the steer's sends on the start path came back done. -/
  starts : Nat

namespace SteerWorld

variable (now : SteerNow)

def start (world : World) : SteerWorld := ⟨world, .resting, false, false, [], 0⟩

variable (w : SteerWorld)

def accepted : Bool := (w.world.db.receipts.find? now.steer.commandId).isSome

/-- The steer is accepted, or its text is out or on its way. -/
def taken : Bool :=
  w.accepted now || decide (0 < w.starts) ||
    (w.world.tasks.filter (·.answers now.steer.commandId)).any (·.sending.isSome)

def delivered : Nat :=
  deliveries now.rowId w.world.log + w.starts + (w.copies.map fun id => deliveries id w.world.log).sum

inductive Action
  | bridge (a : Sightr.Action)
  | tap
  | steerArrives (newId : String)
  | steerEnds (fate : PostFate)
  | cancelArrives (newId : String)
  | cancelEnds (fate : PostFate)

/-- Other commands and batches have ids of their own, and no thread is created under the id of this one. -/
def foreign : Sightr.Action → Bool
  | .command _ ctx _ => decide (ctx.commandId ≠ now.steer.commandId)
  | .environment drafts options =>
    decide (options.commandId ≠ some now.steer.commandId) &&
      drafts.all fun draft =>
        match draft.payload with
        | .threadCreated thread => decide (thread.id ≠ now.threadId)
        | _ => true
  | _ => true

/-- A step of the bridge, and what it makes of the steer. -/
def bridge (a : Sightr.Action) : Option SteerWorld :=
  (w.world.step a).map fun world =>
    if w.world.isAbout now.steer.commandId a then
      { w with
        world
        copies := w.copies ++ world.queuedBy a
        starts := w.starts + if w.world.startDone a then 1 else 0 }
    else { w with world }

/-- What the steer's id is answered, its handler being over. -/
def reply : CommandReply :=
  match w.world.db.receipts.find? now.steer.commandId with
  | some receipt => .ok receipt.sequence
  | none => .refused ""

def steerCommand : DispatchCommand := .messageDispatch now.threadId now.text now.attachments .steer

def step : Action → Option SteerWorld
  | .bridge a => if foreign now a then w.bridge now a else none
  | .tap =>
    if w.steerPosted = false ∧ now.rowId ∈ w.world.issued then
      some { w with phase := .steering false, steerPosted := true }
    else none
  | .steerArrives newId =>
    -- An id with a receipt or a handler does not run again.
    if w.steerPosted && !w.accepted now && !w.world.tasks.any (·.answers now.steer.commandId) then
      w.bridge now (.command (steerCommand now) now.steer newId)
    else none
  | .steerEnds fate =>
    match w.phase with
    | .steering second =>
      if fate = .read ∧ w.world.tasks.any (·.answers now.steer.commandId) = true then none
      else
        match sendResult second (w.reply now) fate with
        | .again => some { w with phase := .steering true }
        | .resolved _ => some { w with phase := .cancelling false, cancelPosted := true }
        | .thrown _ => some { w with phase := .resting }
    | _ => none
  | .cancelArrives newId =>
    if w.cancelPosted then w.bridge now (.command (.queuedCancel now.rowId) now.cancel newId) else none
  | .cancelEnds fate =>
    match w.phase with
    | .cancelling second =>
      match sendResult second (.ok 0) fate with
      | .again => some { w with phase := .cancelling true }
      | _ => some { w with phase := .resting }
    | _ => none

/-- The bridge takes the steer only while its row rests, no pass takes the row once it has, and no pass takes a row
whose background steer is still running. -/
def timely (a : Action) : Bool :=
  (match a with
    | .bridge b => !w.world.takesSteered b && !(w.taken now && w.world.passTakesRow now.rowId b)
    | _ => true) &&
  (w.taken now || w.world.rests now.rowId || !(w.step now a).any (·.taken now))

/-- The states a run reaches, from a bridge start that does not know the steer's id. -/
def Reaches (C : SteerWorld → Action → Prop) (w : SteerWorld) : Prop :=
  ∃ batches db written time, Db.empty.appends batches = .ok (db, written) ∧
    db.receipts.find? now.steer.commandId = none ∧ Runs.Run (step now) C (start (World.boot db time)) w

end SteerWorld

end Client

/-! ### What a command's own handler does -/

namespace World

/-- What a turn of the command's handler comes to: it is over with nothing done, it waits again, or its command is
committed. -/
inductive Handled (ctx : EffectContext) (threadId : String) (w w' : World) : Prop
  | ended (htasks : w'.tasks.filter (·.answers ctx.commandId) = w.tasks.filter (·.answers ctx.commandId))
      (hdb : w'.db = w.db)
  | waits {thread : ServerThread} {text : String} {attachments : List ChatAttachment} {stage : DispatchStage}
      (hid : thread.id = threadId)
      (htasks : w'.tasks.filter (·.answers ctx.commandId) =
        w.tasks.filter (·.answers ctx.commandId) ++ [.dispatch ctx thread text attachments stage])
      (hdb : w'.db = w.db)
  | committed (htasks : w'.tasks.filter (·.answers ctx.commandId) = w.tasks.filter (·.answers ctx.commandId))
      (hreceipt : (w'.db.receipts.find? ctx.commandId).isSome = true)

section

variable {ctx : EffectContext} {threadId newId text : String} {attachments : List ChatAttachment}
  {thread : ServerThread} {w w' : World}

theorem handled_answer (outcome : EffectOutcome) : Handled ctx threadId w (w.answer ctx outcome) := .ended rfl rfl

variable {stage : DispatchStage}

section

variable (hid : thread.id = threadId)
include hid

theorem handled_of_task
    (htasks : w'.tasks = w.tasks ++ [.dispatch ctx thread text attachments stage]) (hdb : w'.db = w.db) :
    Handled ctx threadId w w' := by
  have hfilter : w'.tasks.filter (·.answers ctx.commandId) =
      w.tasks.filter (·.answers ctx.commandId) ++ [.dispatch ctx thread text attachments stage] := by
    rw [htasks, List.filter_append]
    simp [Task.answers]
  exact .waits hid hfilter hdb

theorem handled_spawn :
    Handled ctx threadId w (w.spawn (.dispatch ctx thread text attachments stage)) := handled_of_task hid rfl rfl

theorem handled_startPath :
    Handled ctx threadId w (w.startPath thread text attachments ctx) := handled_of_task hid rfl rfl

end

theorem committed_commit? {drafts : List EventDraft} (h : w.commit? drafts ctx threadId = some w') :
    w'.tasks.filter (·.answers ctx.commandId) = w.tasks.filter (·.answers ctx.commandId) ∧
      (w'.db.receipts.find? ctx.commandId).isSome = true := by
  obtain ⟨m, hm, rfl⟩ := Turn.commit?_eq_some h
  obtain ⟨events, happ, hheard⟩ := heard_append hm
  obtain ⟨calls, htasks, hcalls⟩ := hheard.tasks
  have hnone : calls.filter (·.answers ctx.commandId) = [] :=
    List.filter_eq_nil_iff.mpr fun task htask => by simp [answers_of_isDeferred (hcalls task htask)]
  refine ⟨?_, Db.append_receipt_isSome happ rfl rfl⟩
  change m.tasks.filter _ = _
  rw [htasks, List.filter_append, hnone, List.append_nil]

theorem handled_enqueueRow {rows : List QueuedMessage} :
    Handled ctx threadId w (w.enqueueRow thread text attachments ctx rows newId) := by
  unfold enqueueRow
  dsimp only
  split
  · exact .ended rfl rfl
  · rename_i h
    exact .committed (committed_commit? h).1 (committed_commit? h).2

theorem handled_steerRow : Handled ctx threadId w (w.steerRow thread text attachments ctx newId) := by
  unfold steerRow
  dsimp only
  split
  · exact handled_answer _
  · split
    · exact .ended rfl rfl
    · rename_i m h
      obtain ⟨htasks, hreceipt⟩ := committed_commit? h
      split
      · exact .committed htasks hreceipt
      · refine .committed (Eq.trans ?_ htasks) hreceipt
        simp [spawn, observe, Task.answers]

theorem handled_enqueue (hid : thread.id = threadId) :
    Handled ctx threadId w (w.enqueue thread text attachments ctx newId) := by
  unfold enqueue
  split_ifs
  · exact handled_answer _
  · dsimp only
    split_ifs
    · exact handled_spawn hid
    · exact handled_enqueueRow

theorem handled_dispatch {mode : DispatchMode} :
    Handled ctx threadId w (w.dispatch threadId text attachments mode ctx newId) := by
  unfold dispatch
  split_ifs
  · exact handled_answer _
  · split
    · exact handled_answer _
    · dsimp only
      split
      · exact handled_answer _
      · split_ifs
        · exact handled_answer _
        · split
          · exact handled_answer _
          · rename_i thread hthread
            have hid : thread.id = threadId := Turn.id_of_getThread hthread
            split
            · exact handled_answer _
            · split
              · split_ifs
                · exact handled_answer _
                · exact handled_startPath hid
                · exact handled_spawn hid
              · exact handled_enqueue hid
              · split_ifs
                · exact handled_answer _
                · exact handled_startPath hid
                · exact handled_answer _
                · exact handled_answer _
                · exact handled_enqueue hid
                · exact handled_spawn hid

theorem dispatch_of_gone {mode : DispatchMode} (hgone : w.getThread threadId = none) :
    (w.dispatch threadId text attachments mode ctx newId).db = w.db ∧
      (w.dispatch threadId text attachments mode ctx newId).tasks = w.tasks := by
  unfold dispatch
  split_ifs
  · exact ⟨rfl, rfl⟩
  · split
    · exact ⟨rfl, rfl⟩
    · dsimp only
      split
      · exact ⟨rfl, rfl⟩
      · rw [hgone]
        split_ifs <;> exact ⟨rfl, rfl⟩

theorem handled_dispatchOn {answer : Answer} (hid : thread.id = threadId)
    (hsend : ∀ ref mark, stage ≠ .sending ref mark)
    (h : w.dispatchOn ctx thread text attachments newId stage answer = some w') : Handled ctx threadId w w' := by
  unfold dispatchOn at h
  split at h <;> cases h
  · exact handled_startPath hid
  · exact handled_answer _
  · unfold enqueueReady
    split_ifs
    · exact handled_startPath hid
    · exact handled_enqueueRow
  · exact .ended rfl rfl
  · exact handled_startPath hid
  · exact handled_steerRow
  · exact absurd rfl (hsend _ _)
  · exact absurd rfl (hsend _ _)

theorem commit_notices (w : World) {drafts : List EventDraft} (hdrafts : Turn.NoticesOf thread.id drafts)
    (hnew : w.db.receipts.find? ctx.commandId = none) :
    (w.commit drafts ctx thread.id).tasks.filter (·.answers ctx.commandId) =
        w.tasks.filter (·.answers ctx.commandId) ∧
      (∀ id, (w.commit drafts ctx thread.id).getQueued id = w.getQueued id) ∧
      (((w.commit drafts ctx thread.id).db.receipts.find? ctx.commandId).isSome = true ∨
        w.getThread thread.id = none) := by
  unfold commit
  cases h : w.commit? drafts ctx thread.id with
  | none =>
    refine ⟨rfl, fun _ => rfl, .inr ?_⟩
    by_contra hthread
    obtain ⟨db, written, hok⟩ := @Db.append_notices_ok _ w.now _ _ ctx.receipt
      (fun draft hdraft => (hdrafts draft hdraft).1) (fun draft hdraft item hpay => by
        rw [(hdrafts draft hdraft).2 item hpay]
        exact Option.ne_none_iff_isSome.mp hthread) hnew
    rw [commit?, Option.map_eq_none_iff, append_eq_none] at h
    exact h db written hok
  | some w' =>
    obtain ⟨m, hm, hanswer⟩ := Turn.commit?_eq_some h
    have hnoted := noted_append (fun draft hdraft => (hdrafts draft hdraft).1) hm
    refine ⟨(committed_commit? h).1, fun id => ?_, .inl (committed_commit? h).2⟩
    rw [Option.getD_some, hanswer, getQueued, getQueued, Projection.getQueued, Projection.getQueued]
    exact congrArg (·.find? id) hnoted.queuedMessages

theorem noticesOf_dispatchFailed (threadId reason : String) (message : Option String)
    (textDelivered : Option Bool) : Turn.NoticesOf threadId
      [dispatchFailed threadId reason message textDelivered] := by
  intro draft hdraft
  obtain rfl := List.mem_singleton.mp hdraft
  exact ⟨rfl, fun item hpay => (by cases hpay)⟩

/-- The handler's send came back: it is over, nothing is queued, and a message that is out is committed while its
thread is there. -/
theorem handled_sent {ref mark : Nat} {answer : Answer} (hnew : w.db.receipts.find? ctx.commandId = none)
    (h : w.dispatchOn ctx thread text attachments newId (.sending ref mark) answer = some w') :
    w'.tasks.filter (·.answers ctx.commandId) = w.tasks.filter (·.answers ctx.commandId) ∧
      (∀ id, w'.getQueued id = w.getQueued id) ∧
      (answer.isDone = true → (w'.db.receipts.find? ctx.commandId).isSome = true ∨ w.getThread thread.id = none) := by
  cases answer with
  | send result =>
    simp only [dispatchOn, Option.some.injEq] at h
    subst h
    unfold startSent
    dsimp only
    cases hresult : deliverResult thread text attachments .turnStart w.now newId result with
    | skipped reason =>
      have hnot : (Answer.send result).isDone = false := by
        cases result with
        | done outcome =>
          cases outcome with
          | sent => cases hresult
          | error error textDelivered => cases textDelivered <;> first | rfl | cases hresult
          | _ => rfl
        | _ => rfl
      cases reason <;> exact ⟨rfl, fun _ => rfl, fun hdone => by rw [hnot] at hdone; cases hdone⟩
    | sent events =>
      obtain ⟨htasks, hqueued, haccepted⟩ := commit_notices
        (w.sendBack thread.id .start ref mark (.sent events)) (Turn.noticesOf_deliverResult hresult) hnew
      exact ⟨htasks, hqueued, fun _ => haccepted⟩
    | delivered message =>
      obtain ⟨htasks, hqueued, haccepted⟩ := commit_notices
        (w.sendBack thread.id .start ref mark (.delivered message))
        (noticesOf_dispatchFailed thread.id "error" (some message) (some true)) hnew
      exact ⟨htasks, hqueued, fun _ => haccepted⟩
    | failed reason message =>
      obtain ⟨htasks, hqueued, haccepted⟩ := commit_notices
        (w.sendBack thread.id .start ref mark (.failed reason message))
        (noticesOf_dispatchFailed thread.id reason (some message) none) hnew
      exact ⟨htasks, hqueued, fun _ => haccepted⟩
  | threw message =>
    simp only [dispatchOn, Option.some.injEq] at h
    subst h
    exact ⟨rfl, fun _ => rfl, fun hdone => by cases hdone⟩
  | _ => simp [dispatchOn] at h

end

/-! ### Steps and the row -/

section

variable {w w' : World} {a : Action}

theorem exclusive_step (hsteered : w.takesSteered a = false) (h : w.step a = some w')
    (hw : Turn.Exclusive w none none) : Turn.Exclusive w' none none :=
  Turn.step_invariant (C := fun w a => w.takesSteered a = false)
    (P := fun t => Turn.Exclusive t.world t.running t.fresh)
    (fun _ _ ht hC hpart => Turn.exclusive_of_part ht hC hpart) hsteered h hw

theorem issued_step {id : String} (h : w.step a = some w') (hid : id ∈ w.issued) : id ∈ w'.issued := by
  refine Turn.step_invariant (C := fun _ _ => True) (P := fun t => id ∈ t.world.issued)
    (fun t t' ht _ hpart => ?_) trivial h hid
  obtain ⟨hsame, -⟩ | ⟨newId, -, hworld, -⟩ := Turn.issued_of_part hpart
  · rw [hsame]
    exact ht
  · rw [hworld]
    exact List.mem_cons_of_mem _ ht

theorem rests_step {rowId : String} (hw : Turn.Exclusive w none none) (hid : rowId ∈ w.issued)
    (hrests : w.rests rowId = true) (hsteered : w.takesSteered a = false) (htakes : w.passTakesRow rowId a = false)
    (h : w.step a = some w') : w'.rests rowId = true := by
  obtain ⟨hdeliveries, hclaims⟩ : deliveries rowId w.log = 0 ∧ ∀ task ∈ w.tasks, task.claims rowId = false := by
    simpa [rests] using hrests
  have hkept := Turn.step_invariant (C := fun w a => w.takesSteered a = false ∧ w.passTakesRow rowId a = false)
    (P := fun t => Turn.Exclusive t.world t.running t.fresh ∧ rowId ∈ t.world.issued ∧ t.fresh ≠ some rowId ∧
      deliveries rowId t.world.log = 0 ∧ ∀ task ∈ t.tasks, task.claims rowId = false)
    (fun t t' ht hC hpart => ?_) ⟨hsteered, htakes⟩ h ⟨hw, hid, by simp [Turn.begin], hdeliveries, hclaims⟩
  · obtain ⟨-, -, -, hdeliveries', hclaims'⟩ := hkept
    simpa [rests, show deliveries rowId w'.log = 0 from hdeliveries', Turn.tasks, Turn.done] using hclaims'
  · obtain ⟨hex, hissued, hfresh, hnone, hall⟩ := ht
    refine ⟨Turn.exclusive_of_part hex hC.1 hpart, ?_, ?_, ?_, ?_⟩
    · obtain ⟨hsame, -⟩ | ⟨newId, -, hworld, -⟩ := Turn.issued_of_part hpart
      · rw [hsame]
        exact hissued
      · rw [hworld]
        exact List.mem_cons_of_mem _ hissued
    · obtain ⟨-, hsame | hused⟩ | ⟨newId, hnew, -, hsame⟩ := Turn.issued_of_part hpart
      · rw [hsame]
        exact hfresh
      · simp [hused]
      · rw [hsame]
        rintro ⟨⟩
        exact hnew hissued
    · obtain hsame | ⟨task, hrun, hclaim⟩ := Turn.deliveries_of_part hpart rowId
      · rw [hsame, hnone]
      · rw [hall task (Turn.mem_tasks_of_running hrun)] at hclaim
        cases hclaim
    · refine Turn.forall_tasks hpart (fun task hcall => Task.claims_of_isDeferred hcall) (fun task hadds => ?_) hall
      by_contra hclaims
      obtain ⟨threadId, hclaim⟩ := Task.claim_of_claims (Bool.of_not_eq_false hclaims)
      -- Who claims the row claimed it before, made it, or is a pass that takes it.
      obtain ⟨old, hrun, hold⟩ | ⟨hnew, -, -⟩ | ⟨thread, row, i, passRef, newId, rfl, haction, htask, -, htakes, -⟩ :=
        Turn.claim_of_adds hadds hclaim
      · have hnot := hall old (Turn.mem_tasks_of_running hrun)
        rw [Task.claims_of_claim hold] at hnot
        cases hnot
      · exact hfresh hnew
      · have hnot := hC.2
        simp [passTakesRow, haction, htask, htakes] at hnot

theorem gone_step {threadId : String} (hgone : w.getThread threadId = none)
    (hcreates : ∀ drafts options, a = .environment drafts options → ∀ draft ∈ drafts, ∀ thread,
      draft.payload = .threadCreated thread → thread.id ≠ threadId)
    (h : w.step a = some w') : w'.getThread threadId = none := by
  have hnone {w : World} : w.getThread threadId = none ↔ ∀ thread ∈ w.db.projection.threads.rows,
      thread.id ≠ threadId := Keyed.Table.find?_eq_none_iff
  refine Turn.step_invariant (P := fun t => t.world.getThread threadId = none)
    (C := fun _ a => ∀ drafts options, a = .environment drafts options → ∀ draft ∈ drafts, ∀ thread,
      draft.payload = .threadCreated thread → thread.id ≠ threadId)
    (fun t t' ht hC hpart => ?_) hcreates h hgone
  obtain hsame | ⟨-, -, drafts, options, haction, happ⟩ := Turn.standing_of_part hpart threadId
  · rw [standing, standing, ht, Option.map_none, Option.map_eq_none_iff] at hsame
    exact hsame
  · obtain ⟨events, hok, -⟩ := heard_append happ
    rw [hnone] at ht ⊢
    exact Db.threads_append ht (fun draft hdraft thread hpay => hC drafts options haction draft hdraft thread hpay)
      (fun draft _ thread next _ hrewrites hne => hrewrites.id_eq ▸ hne) hok

end

end World

namespace Client

namespace SteerWorld

variable {now : SteerNow} {w w' : SteerWorld}

/-! ### The invariant -/

/-- The steer's handler, while one runs: nothing of the steer is done yet. -/
inductive Handling (now : SteerNow) (w : SteerWorld) : Prop
  | none (h : w.world.tasks.filter (·.answers now.steer.commandId) = [])
  | running {thread : ServerThread} {text : String} {attachments : List ChatAttachment} {stage : DispatchStage}
      (h : w.world.tasks.filter (·.answers now.steer.commandId) = [.dispatch now.steer thread text attachments stage])
      (hid : thread.id = now.threadId) (hposted : w.steerPosted = true) (haccepted : w.accepted now = false)
      (hcopies : w.copies = []) (hstarts : w.starts = 0)

structure Sound (now : SteerNow) (w : SteerWorld) : Prop where
  exclusive : Turn.Exclusive w.world none none
  issued : w.steerPosted = true → now.rowId ∈ w.world.issued
  untaken : w.steerPosted = false → w.taken now = false
  handling : Handling now w
  /-- The steer is queued once or sent once at most. -/
  made : w.copies.length + w.starts ≤ 1
  copied : w.copies ≠ [] → w.accepted now = true
  started : 0 < w.starts → w.accepted now = true ∨ w.world.getThread now.threadId = none
  rests : w.taken now = true → w.world.rests now.rowId = true

structure SteersOnce (now : SteerNow) (w : SteerWorld) : Prop where
  once : w.delivered now ≤ 1
  kept : w.accepted now = true → deliveries now.rowId w.world.log = 0

theorem sum_deliveries_le {log : List Obs} (h : ∀ id, deliveries id log ≤ 1) (ids : List String) :
    (ids.map fun id => deliveries id log).sum ≤ ids.length := by
  induction ids with
  | nil => exact Nat.le_refl 0
  | cons id ids ih =>
    rw [List.map_cons, List.sum_cons, List.length_cons]
    have := h id
    omega

theorem taken_of_accepted (h : w.accepted now = true) : w.taken now = true := by simp [taken, h]

theorem taken_of_starts (h : 0 < w.starts) : w.taken now = true := by simp [taken, h]

theorem Sound.steersOnce (h : w.Sound now) : w.SteersOnce now := by
  have hdeliveries (id : String) : deliveries id w.world.log ≤ 1 := (h.exclusive.once id).once
  have hrests (htaken : w.taken now = true) : deliveries now.rowId w.world.log = 0 := by
    have hrow := h.rests htaken
    simp only [World.rests, Bool.and_eq_true, decide_eq_true_eq] at hrow
    exact hrow.1
  refine ⟨?_, fun haccepted => hrests (taken_of_accepted haccepted)⟩
  have hcopies := sum_deliveries_le hdeliveries w.copies
  have hmade := h.made
  unfold delivered
  by_cases htaken : w.taken now = true
  · rw [hrests htaken]
    omega
  · have hstarts : w.starts = 0 := by
      by_contra hpos
      exact htaken (taken_of_starts (Nat.pos_of_ne_zero hpos))
    have hnone : w.copies = [] := by
      by_contra hcopied
      exact htaken (taken_of_accepted (h.copied hcopied))
    have hrow := hdeliveries now.rowId
    rw [hstarts, hnone]
    simpa using hrow

/-! ### Steps that are not about the steer -/

section

variable (h : w.world.Leaves now.steer.commandId w'.world)
include h

theorem accepted_of_leaves : w'.accepted now = w.accepted now := by rw [accepted, accepted, h.receipt]

theorem taken_of_leaves (hstarts : w'.starts = w.starts) : w'.taken now = w.taken now := by
  rw [taken, taken, accepted_of_leaves h, h.tasks, hstarts]

end

variable {a : Sightr.Action}

variable {world : World}

private theorem Sound.left (h : w.Sound now)
    (hstep : w.world.step a = some world) (hother : w.world.isAbout now.steer.commandId a = false)
    (hforeign : foreign now a = true) (hsteered : w.world.takesSteered a = false)
    (htakes : w.taken now = true → w.world.passTakesRow now.rowId a = false) :
    ({ w with world } : SteerWorld).Sound now := by
  have hleaves : w.world.Leaves now.steer.commandId ({ w with world } : SteerWorld).world :=
    World.leaves_step hother hstep
  have htaken : ({ w with world } : SteerWorld).taken now = w.taken now := taken_of_leaves hleaves rfl
  have haccepted : ({ w with world } : SteerWorld).accepted now = w.accepted now := accepted_of_leaves hleaves
  refine ⟨World.exclusive_step hsteered hstep h.exclusive, fun hposted => World.issued_step hstep (h.issued hposted),
    fun hposted => htaken.trans (h.untaken hposted), ?_, h.made, fun hcopied => haccepted.trans (h.copied hcopied),
    fun hpos => ?_, fun htaken' => ?_⟩
  · cases h.handling with
    | none hnone => exact .none (hleaves.tasks.trans hnone)
    | running hone hid hposted haccepted' hcopies hstarts =>
      exact .running (hleaves.tasks.trans hone) hid hposted (haccepted.trans haccepted') hcopies hstarts
  · obtain hacc | hgone := h.started hpos
    · exact .inl (haccepted.trans hacc)
    · refine .inr (World.gone_step hgone (fun drafts options haction draft hdraft thread hpay => ?_) hstep)
      rw [haction] at hforeign
      simp only [foreign, Bool.and_eq_true, List.all_eq_true] at hforeign
      have hdraft' := hforeign.2 draft hdraft
      rw [hpay] at hdraft'
      exact of_decide_eq_true hdraft'
  · rw [htaken] at htaken'
    have hposted : w.steerPosted = true := by
      by_contra hnot
      rw [h.untaken (by simpa using hnot)] at htaken'
      cases htaken'
    exact World.rests_step h.exclusive (h.issued hposted) (h.rests htaken') hsteered (htakes htaken') hstep

/-! ### The steer's own steps -/

theorem length_queuedBy_le (world : World) (a : Sightr.Action) : (world.queuedBy a).length ≤ 1 := by
  unfold World.queuedBy
  split
  · split_ifs
    · exact Nat.le_refl 1
    · exact Nat.zero_le 1
  · split_ifs
    · exact Nat.le_refl 1
    · exact Nat.zero_le 1
  · exact Nat.zero_le 1

theorem getQueued_new (h : Turn.Exclusive world none none) {newId : String}
    (hnew : newId ∉ world.issued) : world.getQueued newId = none := by
  by_contra hsome
  exact hnew (h.ids.queued newId (Option.ne_none_iff_isSome.mp hsome)).1

private theorem Sound.own (h : w.Sound now) (hposted : w.steerPosted = true)
    (hsteered : w.world.takesSteered a = false) (htakes : w.world.passTakesRow now.rowId a = false)
    (hstep : w.world.step a = some w'.world)
    (htimely : w.taken now = true ∨ w.world.rests now.rowId = true ∨ w'.taken now = false)
    (hposted' : w'.steerPosted = true) (hhandling : Handling now w') (hmade : w'.copies.length + w'.starts ≤ 1)
    (hcopied : w'.copies ≠ [] → w'.accepted now = true)
    (hstarted : 0 < w'.starts → w'.accepted now = true ∨ w'.world.getThread now.threadId = none) :
    w'.Sound now := by
  refine ⟨World.exclusive_step hsteered hstep h.exclusive, fun _ => World.issued_step hstep (h.issued hposted),
    fun hnot => ?_, hhandling, hmade, hcopied, hstarted, fun htaken' => ?_⟩
  · rw [hposted'] at hnot
    cases hnot
  · have hrests : w.world.rests now.rowId = true := by
      obtain htaken | hrests | hnot := htimely
      · exact h.rests htaken
      · exact hrests
      · rw [hnot] at htaken'
        cases htaken'
    exact World.rests_step h.exclusive (h.issued hposted) hrests hsteered htakes hstep

variable {newId : String}

private theorem Sound.handled (h : w.Sound now) (m : World)
    (hposted : w.steerPosted = true) (hsteered : w.world.takesSteered a = false)
    (htakes : w.world.passTakesRow now.rowId a = false) (hstep : w.world.step a = some world)
    (htimely : w.taken now = true ∨ w.world.rests now.rowId = true ∨
      ({ w with world, copies := world.queuedBy a } : SteerWorld).taken now = false)
    (hstarts : w.starts = 0) (haccepted : w.accepted now = false)
    (hqueuedBy : world.queuedBy a = if (world.getQueued newId).isSome then [newId] else [])
    (hnew : newId ∉ w.world.issued) (hdb : m.db = w.world.db)
    (hnone : m.tasks.filter (·.answers now.steer.commandId) = [])
    (hhandled : World.Handled now.steer now.threadId m world) :
    ({ w with world, copies := world.queuedBy a } : SteerWorld).Sound now := by
  have hsame (hworld : world.db = m.db) : world.queuedBy a = [] := by
    rw [hqueuedBy, World.getQueued, hworld, hdb, ← World.getQueued, getQueued_new h.exclusive hnew]
    rfl
  refine h.own hposted hsteered htakes hstep htimely hposted ?_ ?_ ?_ ?_
  · cases hhandled with
    | ended htasks => exact .none (htasks.trans hnone)
    | waits hid htasks hworld =>
      rw [hnone, List.nil_append] at htasks
      refine .running htasks hid hposted ?_ (hsame hworld) hstarts
      rw [accepted, hworld, hdb, ← accepted, haccepted]
    | committed htasks => exact .none (htasks.trans hnone)
  · change (world.queuedBy a).length + w.starts ≤ 1
    rw [hstarts]
    exact length_queuedBy_le world a
  · intro hqueued
    cases hhandled with
    | ended _ hworld => exact absurd (hsame hworld) hqueued
    | waits _ _ hworld => exact absurd (hsame hworld) hqueued
    | committed _ hreceipt => exact hreceipt
  · intro hpos
    rw [show ({ w with world, copies := world.queuedBy a } : SteerWorld).starts = w.starts from rfl, hstarts] at hpos
    cases hpos

theorem Sound.arrives (h : w.Sound now) (hposted : w.steerPosted = true)
    (haccepted : w.accepted now = false) (hidle : w.world.tasks.filter (·.answers now.steer.commandId) = [])
    (hstep : w.bridge now (.command (steerCommand now) now.steer newId) = some w')
    (htimely : w.taken now = true ∨ w.world.rests now.rowId = true ∨ w'.taken now = false) : w'.Sound now := by
  obtain ⟨world, hworld, rfl⟩ := Option.map_eq_some_iff.mp hstep
  have hcopies : w.copies = [] := by
    by_contra hcopied
    rw [h.copied hcopied] at haccepted
    cases haccepted
  rw [if_pos (by simp [World.isAbout]), hcopies, List.nil_append] at htimely ⊢
  have hparts : newId ∉ w.world.issued ∧ (w.world.issue newId).dispatch now.threadId now.text now.attachments .steer
      now.steer newId = world := by
    simp only [World.step] at hworld
    split_ifs at hworld with hnew
    exact ⟨hnew, Option.some.inj hworld⟩
  by_cases hstarts : w.starts = 0
  · exact h.handled (w.world.issue newId) hposted rfl rfl hworld htimely hstarts haccepted rfl hparts.1 rfl hidle
      (hparts.2 ▸ World.handled_dispatch)
  · -- The thread of an attempt that was delivered, and not accepted, is gone.
    have hgone : w.world.getThread now.threadId = none := by
      obtain hacc | hgone := h.started (Nat.pos_of_ne_zero hstarts)
      · rw [hacc] at haccepted
        cases haccepted
      · exact hgone
    obtain ⟨hdb, htasks⟩ := @World.dispatch_of_gone now.steer now.threadId newId now.text now.attachments
      (w.world.issue newId) .steer hgone
    rw [hparts.2] at hdb htasks
    have hqueued : world.queuedBy (.command (steerCommand now) now.steer newId) = [] := by
      have hnone : world.getQueued newId = none := by
        rw [World.getQueued, hdb]
        exact getQueued_new h.exclusive hparts.1
      simp [World.queuedBy, hnone]
    refine h.own hposted rfl rfl hworld htimely hposted (.none ?_) ?_ (fun hcopied => absurd hqueued hcopied)
      fun _ => .inr ?_
    · change world.tasks.filter _ = []
      rw [htasks]
      exact hidle
    · have hmade := h.made
      rw [hcopies] at hmade
      rw [hqueued]
      exact hmade
    · change world.getThread now.threadId = none
      rw [World.getThread, hdb]
      exact hgone

theorem filter_take {i : Nat} {task : Task} {commandId : String}
    (htask : world.tasks[i]? = some task) (hanswers : task.answers commandId = true)
    (hone : world.tasks.filter (·.answers commandId) = [task]) :
    (world.take i).tasks.filter (·.answers commandId) = [] := by
  obtain ⟨hlt, rfl⟩ := List.getElem?_eq_some_iff.mp htask
  have hperm := (List.getElem_cons_eraseIdx_perm hlt).filter (·.answers commandId)
  rw [hone, List.filter_cons_of_pos hanswers] at hperm
  have hlength := hperm.length_eq
  rw [List.length_cons, List.length_singleton, Nat.add_eq_right] at hlength
  exact List.eq_nil_of_length_eq_zero hlength

theorem Sound.resumes {i : Nat} {answer : World.Answer} (h : w.Sound now)
    (habout : w.world.isAbout now.steer.commandId (.resume i answer newId) = true)
    (hstep : w.bridge now (.resume i answer newId) = some w')
    (htimely : w.taken now = true ∨ w.world.rests now.rowId = true ∨ w'.taken now = false) : w'.Sound now := by
  obtain ⟨world, hworld, rfl⟩ := Option.map_eq_some_iff.mp hstep
  rw [if_pos habout] at htimely ⊢
  obtain ⟨task, htask, hanswers⟩ : ∃ task, w.world.tasks[i]? = some task ∧
      task.answers now.steer.commandId = true := (Option.any_eq_true _ _).mp habout
  have hmem : task ∈ w.world.tasks.filter (·.answers now.steer.commandId) :=
    List.mem_filter.mpr ⟨List.mem_of_getElem? htask, hanswers⟩
  obtain hnone | @⟨thread, text, attachments, stage, hone, hid, hposted, haccepted, hcopies, hstarts⟩ := h.handling
  · rw [hnone] at hmem
    cases hmem
  · rw [hone] at hmem
    obtain rfl := List.mem_singleton.mp hmem
    have hnone := filter_take htask hanswers hone
    have hparts : newId ∉ w.world.issued ∧ ((w.world.take i).issue newId).dispatchOn now.steer thread text attachments
        newId stage answer = some world := by
      simp only [World.step] at hworld
      split_ifs at hworld with hnew
      rw [htask] at hworld
      refine ⟨hnew, ?_⟩
      cases stage <;> exact hworld
    have hsteered : w.world.takesSteered (.resume i answer newId) = false := by
      unfold World.takesSteered
      split
      · rename_i heq
        cases heq
        rw [htask]
      · rfl
    have htakes : w.world.passTakesRow now.rowId (.resume i answer newId) = false := by
      unfold World.passTakesRow
      split
      · rename_i heq
        cases heq
        rw [htask]
      · rfl
    rw [hcopies, List.nil_append, hstarts, Nat.zero_add] at htimely ⊢
    by_cases hsend : ∃ ref mark, stage = .sending ref mark
    · obtain ⟨ref, mark, rfl⟩ := hsend
      obtain ⟨htasks, hqueued, hcommitted⟩ := World.handled_sent (by
        change w.world.db.receipts.find? _ = none
        simpa [accepted] using haccepted) hparts.2
      have hnothing : world.queuedBy (.resume i answer newId) = [] := by
        have hfree : world.getQueued newId = none := (hqueued newId).trans (getQueued_new h.exclusive hparts.1)
        simp [World.queuedBy, hfree]
      refine h.own hposted hsteered htakes hworld htimely hposted (.none (htasks.trans hnone)) ?_
        (fun hcopied => absurd hnothing hcopied) fun hpos => ?_
      · rw [hnothing]
        dsimp only
        split_ifs <;> decide
      · have hdone : answer.isDone = true := by
          dsimp only at hpos
          split_ifs at hpos with hstart
          · exact (Bool.and_eq_true _ _ ▸ hstart).2
          · cases hpos
        obtain haccepted' | hgone := hcommitted hdone
        · exact .inl haccepted'
        · refine .inr (World.gone_step (hid ▸ hgone) (fun _ _ haction => ?_) hworld)
          cases haction
    · push Not at hsend
      have hstart : w.world.startDone (.resume i answer newId) = false := by
        cases stage with
        | sending ref mark => exact absurd rfl (hsend ref mark)
        | _ => simp [World.startDone, htask, Task.sending]
      rw [hstart] at htimely ⊢
      have hhandled := h.handled ((w.world.take i).issue newId) hposted hsteered htakes hworld
        (by simpa [hstarts] using htimely) hstarts haccepted rfl hparts.1 rfl hnone
        (World.handled_dispatchOn hid hsend hparts.2)
      simpa [hstarts] using hhandled

private theorem Sound.aside (h : w.Sound now) (hworld : w'.world = w.world) (hcopies : w'.copies = w.copies)
    (hstarts : w'.starts = w.starts) (hposted : w'.steerPosted = w.steerPosted) : w'.Sound now := by
  obtain ⟨world, phase, steerPosted, cancelPosted, copies, starts⟩ := w'
  obtain rfl : world = w.world := hworld
  obtain rfl : copies = w.copies := hcopies
  obtain rfl : starts = w.starts := hstarts
  obtain rfl : steerPosted = w.steerPosted := hposted
  refine ⟨h.exclusive, h.issued, h.untaken, ?_, h.made, h.copied, h.started, h.rests⟩
  cases h.handling with
  | none hnone => exact .none hnone
  | running hone hid hposted haccepted hcopies hstarts => exact .running hone hid hposted haccepted hcopies hstarts

theorem timely_rests {a : Action} (htimely : w.timely now a = true) (hstep : w.step now a = some w') :
    w.taken now = true ∨ w.world.rests now.rowId = true ∨ w'.taken now = false := by
  have hrest := (Bool.and_eq_true _ _ ▸ htimely).2
  rw [hstep, Option.any_some, Bool.or_eq_true, Bool.or_eq_true, Bool.not_eq_true'] at hrest
  exact or_assoc.mp hrest

theorem Sound.bridged (h : w.Sound now)
    (hstep : w.bridge now a = some w') (hother : w.world.isAbout now.steer.commandId a = false)
    (hforeign : foreign now a = true) (hsteered : w.world.takesSteered a = false)
    (htakes : w.taken now = true → w.world.passTakesRow now.rowId a = false) : w'.Sound now := by
  obtain ⟨world, hworld, rfl⟩ := Option.map_eq_some_iff.mp hstep
  rw [if_neg (by simp [hother])]
  exact h.left hworld hother hforeign hsteered htakes

theorem Sound.step {a : Action} (h : w.Sound now) (htimely : w.timely now a = true)
    (hstep : w.step now a = some w') : w'.Sound now := by
  have hrests := timely_rests htimely hstep
  cases a with
  | bridge a =>
    simp only [SteerWorld.step] at hstep
    split_ifs at hstep with hforeign
    obtain ⟨hsteered, htakes⟩ : w.world.takesSteered a = false ∧
        (w.taken now = true → w.world.passTakesRow now.rowId a = false) := by
      have hboth := (Bool.and_eq_true _ _ ▸ htimely).1
      simp only [Bool.and_eq_true, Bool.not_eq_true', Bool.and_eq_false_iff] at hboth
      refine ⟨hboth.1, fun htaken => hboth.2.resolve_left fun hnot => ?_⟩
      rw [htaken] at hnot
      cases hnot
    by_cases habout : w.world.isAbout now.steer.commandId a = true
    · cases a with
      | command c ctx newId =>
        have hne : ctx.commandId ≠ now.steer.commandId := by simpa [foreign] using hforeign
        exact absurd habout (by simpa [World.isAbout] using hne)
      | environment drafts options =>
        simp only [foreign, Bool.and_eq_true, decide_eq_true_eq] at hforeign
        exact absurd habout (by simpa [World.isAbout] using hforeign.1)
      | resume i answer newId => exact h.resumes habout hstep hrests
      | _ => cases habout
    · exact h.bridged hstep (by simpa using habout) hforeign hsteered htakes
  | tap =>
    simp only [SteerWorld.step] at hstep
    split_ifs at hstep with hready
    cases hstep
    have htaken : w.taken now = false := h.untaken hready.1
    refine ⟨h.exclusive, fun _ => hready.2, fun hnot => (by cases hnot), ?_, h.made, h.copied, h.started,
      fun htaken' => ?_⟩
    · cases h.handling with
      | none hnone => exact .none hnone
      | running hone hid hposted =>
        rw [hready.1] at hposted
        cases hposted
    · rw [show w.taken now = true from htaken'] at htaken
      cases htaken
  | steerArrives newId =>
    simp only [SteerWorld.step] at hstep
    split_ifs at hstep with hready
    simp only [Bool.and_eq_true, Bool.not_eq_true'] at hready
    obtain ⟨⟨hposted, haccepted⟩, hidle⟩ := hready
    refine h.arrives hposted haccepted (List.filter_eq_nil_iff.mpr fun task htask => ?_) hstep hrests
    exact Bool.eq_false_iff.mp (by simpa using List.any_eq_false.mp hidle task htask)
  | steerEnds fate =>
    simp only [SteerWorld.step] at hstep
    split at hstep
    · split_ifs at hstep
      split at hstep <;> obtain rfl := Option.some.inj hstep <;> exact h.aside rfl rfl rfl rfl
    · cases hstep
  | cancelArrives newId =>
    simp only [SteerWorld.step] at hstep
    split_ifs at hstep
    have hne := now.distinct
    exact h.bridged hstep (by simpa [World.isAbout] using hne) (by simpa [foreign] using hne) rfl fun _ => rfl
  | cancelEnds fate =>
    simp only [SteerWorld.step] at hstep
    split at hstep
    · split at hstep <;> obtain rfl := Option.some.inj hstep <;> exact h.aside rfl rfl rfl rfl
    · cases hstep

theorem leaves_boot (commandId : String) (db : Db) (time : Int) :
    (World.boot db time).tasks.filter (·.answers commandId) = [] ∧
      (World.boot db time).db.receipts.find? commandId = db.receipts.find? commandId := by
  have hhold (w : World) (threadId : String) : w.Leaves commandId (w.holdRestart threadId) := by
    unfold World.holdRestart
    dsimp only
    split_ifs
    · exact .refl w
    · split
      · exact .refl w
      · rename_i happ
        exact (World.leaves_append (by simp) happ).trans (World.leaves_spawn rfl)
  have hfold (ids : List String) (w : World) : w.Leaves commandId (ids.foldl World.holdRestart w) := by
    induction ids generalizing w with
    | nil => exact .refl w
    | cons id ids ih => exact (hhold w id).trans (ih _)
  have hboot := hfold ((db.projection.queuedMessages.rows.map (·.threadId)).dedup)
    { db, now := time, drainer := .empty, interrupting := fun _ => none, tasks := []
      issued := db.projection.queuedMessages.rows.map (·.id), log := [] }
  exact ⟨hboot.tasks, hboot.receipt⟩

/-- In every timely run the row's text is delivered once at most, as the row or as its steer, and the row of
an accepted steer is not delivered. -/
theorem steers_once (h : Reaches now (fun w a => w.timely now a = true) w) : w.SteersOnce now := by
  obtain ⟨batches, db, written, time, happ, hfresh, hrun⟩ := h
  obtain ⟨htasks, hreceipt⟩ := leaves_boot now.steer.commandId db time
  have haccepted : (start (World.boot db time)).accepted now = false := by
    rw [accepted, start, hreceipt, hfresh]
    rfl
  have htaken : (start (World.boot db time)).taken now = false := by
    rw [taken, haccepted]
    change (false || false || ((World.boot db time).tasks.filter _).any _) = false
    rw [htasks]
    rfl
  refine (hrun.invariant (P := Sound now) (fun _ _ _ hw htimely hstep => hw.step htimely hstep) ?_).steersOnce
  refine ⟨Turn.exclusive_of_booted (World.booted_boot db time) (Db.queueOwned_of_appends happ), fun h => (by cases h),
    fun _ => htaken, .none htasks, Nat.zero_le 1, fun h => absurd rfl h, fun h => (by cases h), fun h => ?_⟩
  rw [htaken] at h
  cases h

/-! ### Two runs -/

def exampleSteer : SteerNow where
  threadId := "t1"
  rowId := "n1"
  text := "turn left"
  attachments := []
  steer := testContext "s"
  cancel := testContext "k"
  distinct := by decide

def steeredRow : List Action :=
  [.bridge (.command (.messageDispatch "t1" "turn left" [] .queue) (testContext "c1") "n1"), .tap,
    .steerArrives "x1", .bridge (.resume 1 (.screen false) "s1"), .bridge (.resume 2 (.screen true) "x2"),
    .steerEnds .read, .bridge (.resume 2 (.send (.done .sent)) "x3")]

/-- The agent takes the steer and comes to rest before the cancel arrives; the drainer sends the row. -/
def lateCancel : List Action :=
  steeredRow ++ [.bridge (statusBatch .working 2000), .bridge (statusBatch .idle 3000), .bridge (.startPass "t1"),
    .bridge (.resume 3 (.composer (some true)) "x4"), .bridge (.resume 3 (.send (.done .sent)) "x5")]

private theorem reaches_of_exec {C : SteerWorld → Action → Prop} [∀ w a, Decidable (C w a)] (actions : List Action)
    {p : SteerWorld → Bool}
    (h : (Runs.exec (step exampleSteer) C (start (World.boot (dispatchDb .working) 0)) actions).any p = true) :
    ∃ w, Reaches exampleSteer C w ∧ p w = true := by
  obtain ⟨w, hrun, hp⟩ := Runs.exists_run_of_exec h
  obtain ⟨written, happ⟩ := World.appends_dispatchDb .working
  exact ⟨w, ⟨_, _, written, 0, happ, rfl, hrun⟩, hp⟩

/-- The cancel arrives in time. -/
theorem steers_once_in_time : ∃ w : SteerWorld, w.accepted exampleSteer = true ∧ w.delivered exampleSteer = 1 ∧
    w.SteersOnce exampleSteer := by
  obtain ⟨w, hreaches, hp⟩ := reaches_of_exec (steeredRow ++ [.cancelArrives "x4", .cancelEnds .read])
    (C := fun w a => w.timely exampleSteer a = true)
    (p := fun w => w.accepted exampleSteer && w.delivered exampleSteer = 1) (by decide +kernel)
  rw [Bool.and_eq_true, decide_eq_true_eq] at hp
  exact ⟨w, hp.1, hp.2, steers_once hreaches⟩

/-- The row is delivered after its accepted steer. -/
theorem delivers_twice_late_cancel : ¬ ∀ w, Reaches exampleSteer (fun _ _ => True) w → w.SteersOnce exampleSteer := by
  intro h
  obtain ⟨w, hreaches, htwice⟩ := reaches_of_exec lateCancel (C := fun _ _ => True)
    (p := fun w => w.delivered exampleSteer = 2) (by decide +kernel)
  have hone := (h w hreaches).once
  rw [of_decide_eq_true htwice] at hone
  omega

end SteerWorld

end Client

end Sightr
