import Sightr.Dispatch.Machine

/-!
# The dispatcher's own commits

The dispatcher writes queues, notices and permission modes. Its listeners answer none of these but with
a deferred `schedule`, so what such a commit does beside the store is said once here.
-/

namespace Sightr

open Projection

def isOwn : ServerPayload → Bool
  | .queueUpdated .. | .turnItemUpdated _ | .dispatchFailed .. => true
  | .threadUpdated patch _ => patch.status = .absent
  | _ => false

def Task.isDeferred : Task → Bool
  | .schedule _ | .holdClosed _ => true
  | _ => false

namespace World

/-! ### What the listeners do -/

/-- What a commit of own events does beside the store. -/
structure Echoes (w w' : World) : Prop where
  now : w'.now = w.now
  drainer : w'.drainer = w.drainer
  interrupting : w'.interrupting = w.interrupting
  issued : w'.issued = w.issued
  tasks : ∃ ids : List String, w'.tasks = w.tasks ++ ids.map .schedule
  log : ∃ events : List StoredEvent, w'.log = events.map .committed ++ w.log ∧
    ∀ event ∈ events, isOwn event.payload = true

theorem Echoes.refl (w : World) : Echoes w w := ⟨rfl, rfl, rfl, rfl, ⟨[], by simp⟩, [], by simp, by simp⟩

variable {w w' : World}

theorem Echoes.trans {w'' : World} (h : Echoes w w') (h' : Echoes w' w'') : Echoes w w'' := by
  obtain ⟨ids, hids⟩ := h.tasks
  obtain ⟨ids', hids'⟩ := h'.tasks
  obtain ⟨events, hevents, hown⟩ := h.log
  obtain ⟨events', hevents', hown'⟩ := h'.log
  refine ⟨h'.now.trans h.now, h'.drainer.trans h.drainer, h'.interrupting.trans h.interrupting,
    h'.issued.trans h.issued, ⟨ids ++ ids', ?_⟩, events' ++ events, ?_, ?_⟩
  · rw [hids', hids, List.map_append, List.append_assoc]
  · rw [hevents', hevents, List.map_append, List.append_assoc]
  · intro event hevent
    rcases List.mem_append.mp hevent with hevent | hevent
    · exact hown' event hevent
    · exact hown event hevent

@[simp] theorem db_drainOn (w : World) (threadId : String) (payload : ServerPayload) :
    (w.drainOn threadId payload).db = w.db := by
  unfold drainOn
  split
  · split
    · rfl
    · split_ifs <;> rfl
  all_goals first | rfl | (split_ifs <;> rfl)

@[simp] theorem db_interruptOn (w : World) (threadId : String) (payload : ServerPayload) :
    (w.interruptOn threadId payload).db = w.db := by
  unfold interruptOn
  split <;> rfl

@[simp] theorem db_onEvent (w : World) (event : StoredEvent) : (w.onEvent event).db = w.db := by
  unfold onEvent
  dsimp only
  split
  · rfl
  · rw [db_interruptOn, db_drainOn]
    rfl

@[simp] theorem db_foldl_onEvent (events : List StoredEvent) (w : World) : (events.foldl onEvent w).db = w.db := by
  induction events generalizing w with
  | nil => rfl
  | cons event events ih => rw [List.foldl_cons, ih, db_onEvent]

theorem drainOn_own {w : World} {threadId : String} {payload : ServerPayload}
    (h : isOwn payload = true) : w.drainOn threadId payload = w ∨
      w.drainOn threadId payload = w.spawn (.schedule threadId) := by
  unfold drainOn
  cases payload with
  | threadUpdated patch at_ =>
    have hstatus : patch.status = .absent := by simpa [isOwn] using h
    simp [statusOf, hstatus]
  | queueUpdated _ change =>
    dsimp only
    split_ifs
    · exact .inr rfl
    · exact .inl rfl
  | turnItemUpdated | dispatchFailed => exact .inl rfl
  | _ => simp [isOwn] at h

variable {threadId : String}

theorem interruptOn_own {payload : ServerPayload} (h : isOwn payload = true) :
    w.interruptOn threadId payload = w := by
  unfold interruptOn
  cases payload with
  | threadUpdated patch at_ =>
    have hstatus : patch.status = .absent := by simpa [isOwn] using h
    simp [statusOf, hstatus, Payload.type]
  | queueUpdated | turnItemUpdated | dispatchFailed => simp [statusOf, Payload.type]
  | _ => simp [isOwn] at h

variable {event : StoredEvent}

theorem echoes_onEvent (h : isOwn event.payload = true) : Echoes w (w.onEvent event) := by
  unfold onEvent
  dsimp only
  split
  · exact ⟨rfl, rfl, rfl, rfl, ⟨[], by simp [observe]⟩, [event], by simp [observe], by simpa using h⟩
  · rename_i threadId _
    rw [interruptOn_own h]
    rcases @drainOn_own (w.observe (.committed event)) threadId _ h with heq | heq
    · rw [heq]
      exact ⟨rfl, rfl, rfl, rfl, ⟨[], by simp [observe]⟩, [event], by simp [observe], by simpa using h⟩
    · rw [heq]
      exact ⟨rfl, rfl, rfl, rfl, ⟨[threadId], by simp [observe, spawn]⟩, [event],
        by simp [observe, spawn], by simpa using h⟩

theorem echoes_foldl_onEvent {events : List StoredEvent} (h : ∀ event ∈ events, isOwn event.payload = true) :
    Echoes w (events.foldl onEvent w) := by
  induction events generalizing w with
  | nil => exact .refl w
  | cons event events ih =>
    exact (echoes_onEvent (h event List.mem_cons_self)).trans (ih fun e he => h e (List.mem_cons_of_mem _ he))

/-! ### Batches -/

variable {drafts : List EventDraft} {options : AppendOptions}

theorem append_eq_some : w.append drafts options = some w' ↔ ∃ db events,
      w.db.append { drafts, options, ts := w.now } = .ok (db, events) ∧
        w' = events.foldl onEvent { w with db } := by
  unfold append
  split
  · rename_i herr
    simp [herr]
  · rename_i db events hok
    constructor
    · rintro ⟨⟩
      exact ⟨db, events, hok, rfl⟩
    · rintro ⟨db', events', hok', rfl⟩
      obtain ⟨rfl, rfl⟩ := Prod.mk.inj (Except.ok.inj (hok.symm.trans hok'))
      rfl

theorem append_eq_none : w.append drafts options = none ↔
      ∀ db events, w.db.append { drafts, options, ts := w.now } ≠ .ok (db, events) := by
  unfold append
  split
  · rename_i herr
    simp [herr]
  · rename_i db events hok
    constructor
    · rintro ⟨⟩
    · intro h
      exact absurd hok (h db events)

theorem echoes_append (hown : ∀ draft ∈ drafts, isOwn draft.payload = true) (h : w.append drafts options = some w') :
    Echoes w w' := by
  obtain ⟨db, events, hok, rfl⟩ := append_eq_some.mp h
  have hevents : ∀ event ∈ events, isOwn event.payload = true := by
    intro event hevent
    obtain ⟨draft, hdraft, htype, -, hpayload⟩ := Db.exists_draft_of_written hok event hevent
    by_cases hitem : draft.payload.type = .turnItemUpdated
    · rw [hitem] at htype
      cases hpay : event.payload <;> simp [hpay, Payload.type] at htype
      rfl
    · rw [hpayload hitem]
      exact hown draft hdraft
  have hdb : Echoes w { w with db } := ⟨rfl, rfl, rfl, rfl, ⟨[], by simp⟩, [], by simp, by simp⟩
  exact hdb.trans (echoes_foldl_onEvent hevents)

/-- What any commit does beside the store, the drainer and the presses. -/
structure Heard (w : World) (events : List StoredEvent) (w' : World) : Prop where
  now : w'.now = w.now
  issued : w'.issued = w.issued
  tasks : ∃ calls : List Task, w'.tasks = w.tasks ++ calls ∧ ∀ task ∈ calls, task.isDeferred = true
  log : w'.log = (events.map .committed).reverse ++ w.log

theorem heard_onEvent (w : World) (event : StoredEvent) : Heard w [event] (w.onEvent event) := by
  have hdrain (w : World) (threadId : String) (payload : ServerPayload) :
      Heard w [] (w.drainOn threadId payload) := by
    have hsame (d : Drainer) : Heard w [] { w with drainer := d } := ⟨rfl, rfl, ⟨[], by simp⟩, rfl⟩
    have hcall (d : Drainer) (task : Task) (h : task.isDeferred = true) :
        Heard w [] ({ w with drainer := d }.spawn task) :=
      ⟨rfl, rfl, ⟨[task], rfl, by simpa using h⟩, rfl⟩
    unfold drainOn
    split
    · split
      · exact hsame _
      · split_ifs
        · exact hsame _
        · exact hsame _
        · exact hcall _ _ rfl
        · exact hcall _ _ rfl
    · split_ifs
      · exact hcall _ _ rfl
      · exact hsame _
    · exact hcall _ _ rfl
    · split_ifs
      · exact hcall _ _ rfl
      · exact hsame _
    · split_ifs
      · exact hcall _ _ rfl
      · exact hsame _
    · exact hsame _
  have hinterrupt (w : World) (threadId : String) (payload : ServerPayload) :
      Heard w [] (w.interruptOn threadId payload) := by
    unfold interruptOn
    split <;> exact ⟨rfl, rfl, ⟨[], by simp⟩, rfl⟩
  unfold onEvent
  dsimp only
  split
  · exact ⟨rfl, rfl, ⟨[], by simp [observe]⟩, rfl⟩
  · rename_i threadId _
    obtain ⟨hnow, hissued, ⟨calls, htasks, hcalls⟩, hlog⟩ :=
      hdrain (w.observe (.committed event)) threadId event.payload
    obtain ⟨hnow', hissued', ⟨calls', htasks', hcalls'⟩, hlog'⟩ :=
      hinterrupt ((w.observe (.committed event)).drainOn threadId event.payload) threadId event.payload
    refine ⟨hnow'.trans hnow, hissued'.trans hissued, ⟨calls ++ calls', ?_, fun task htask => ?_⟩, ?_⟩
    · rw [htasks', htasks, List.append_assoc]
      rfl
    · exact (List.mem_append.mp htask).elim (hcalls task) (hcalls' task)
    · rw [hlog', hlog]
      rfl

theorem heard_foldl_onEvent (events : List StoredEvent) (w : World) : Heard w events (events.foldl onEvent w) := by
  induction events generalizing w with
  | nil => exact ⟨rfl, rfl, ⟨[], by simp⟩, rfl⟩
  | cons event events ih =>
    obtain ⟨hnow, hissued, ⟨calls, htasks, hcalls⟩, hlog⟩ := heard_onEvent w event
    obtain ⟨hnow', hissued', ⟨calls', htasks', hcalls'⟩, hlog'⟩ := ih (w.onEvent event)
    refine ⟨hnow'.trans hnow, hissued'.trans hissued, ⟨calls ++ calls', ?_, fun task htask => ?_⟩, ?_⟩
    · rw [List.foldl_cons, htasks', htasks, List.append_assoc]
    · exact (List.mem_append.mp htask).elim (hcalls task) (hcalls' task)
    · rw [List.foldl_cons, hlog', hlog]
      simp

theorem heard_append (h : w.append drafts options = some w') : ∃ events,
      w.db.append { drafts, options, ts := w.now } = .ok (w'.db, events) ∧ Heard w events w' := by
  obtain ⟨db, events, hok, rfl⟩ := append_eq_some.mp h
  refine ⟨events, ?_, ?_⟩
  · rw [db_foldl_onEvent]
    exact hok
  · obtain ⟨hnow, hissued, htasks, hlog⟩ := heard_foldl_onEvent events { w with db }
    exact ⟨hnow, hissued, htasks, hlog⟩

/-- A commit replaced one thread's queue with `rows`. -/
structure Rewrote (w : World) (threadId : String) (rows : List QueuedMessage) (w' : World) : Prop
    extends Echoes w w' where
  queue : QueueRewritten threadId rows w.db.projection w'.db.projection
  threads : w'.db.projection.threads = w.db.projection.threads
  requests : w'.db.projection.runtimeRequests = w.db.projection.runtimeRequests
  owned : w.db.projection.QueueOwned → w'.db.projection.QueueOwned

theorem isOwn_of_isDispatchNotice {draft : EventDraft} (h : isDispatchNotice draft = true) :
    isOwn draft.payload = true := by
  cases hpay : draft.payload <;> simp [isDispatchNotice, hpay, Payload.type] at h <;> rfl

variable {after : List EventDraft} {rows : List QueuedMessage} {change : Option QueueChange} {reason : Option String}

theorem rewrote_append {before : List EventDraft} (hbefore : AllNotices before) (hafter : AllNotices after)
    (h : w.append (before ++ queueEvent threadId rows change reason :: after) options = some w') :
    Rewrote w threadId rows w' := by
  have hechoes : Echoes w w' := by
    refine echoes_append (fun draft hdraft => ?_) h
    rcases List.mem_append.mp hdraft with hdraft | hdraft
    · exact isOwn_of_isDispatchNotice (hbefore draft hdraft)
    · rcases List.mem_cons.mp hdraft with rfl | hdraft
      · rfl
      · exact isOwn_of_isDispatchNotice (hafter draft hdraft)
  obtain ⟨db, events, hok, rfl⟩ := append_eq_some.mp h
  obtain ⟨hqueue, hthreads, hrequests⟩ := Db.append_queueEvent rfl hbefore hafter hok
  refine ⟨hechoes, ?_, ?_, ?_, fun howned => ?_⟩ <;> rw [db_foldl_onEvent]
  · exact hqueue
  · exact hthreads
  · exact hrequests
  · exact Db.append_queueOwned howned hok

theorem rewrote_append_cons (hafter : AllNotices after)
    (h : w.append (queueEvent threadId rows change reason :: after) options = some w') :
    Rewrote w threadId rows w' :=
  rewrote_append (fun _ hdraft => absurd hdraft List.not_mem_nil) hafter h

structure Noted (w w' : World) : Prop extends Echoes w w' where
  queuedMessages : w'.db.projection.queuedMessages = w.db.projection.queuedMessages
  requests : w'.db.projection.runtimeRequests = w.db.projection.runtimeRequests
  threads : ∀ id, (w'.getThread id).map (fun thread => (thread.shelf, thread.status)) =
    (w.getThread id).map fun thread => (thread.shelf, thread.status)
  owned : w.db.projection.QueueOwned → w'.db.projection.QueueOwned

theorem noted_append (hdrafts : AllNotices drafts)
    (h : w.append drafts options = some w') : Noted w w' := by
  have hechoes := echoes_append (fun draft hd => isOwn_of_isDispatchNotice (hdrafts draft hd)) h
  obtain ⟨db, events, hok, rfl⟩ := append_eq_some.mp h
  have hsame := Db.append_sameRows hdrafts hok
  refine ⟨hechoes, ?_, ?_, fun id => ?_, fun howned => ?_⟩
  · rw [db_foldl_onEvent]
    exact hsame.queuedMessages
  · rw [db_foldl_onEvent]
    exact hsame.runtimeRequests
  · rw [getThread, db_foldl_onEvent, Projection.getThread, hsame.threads]
    rfl
  · rw [db_foldl_onEvent]
    exact Db.append_queueOwned howned hok

variable {mode : String}

theorem writeDraft_modePatch {ts : Int} {db db' : Db} {at_ : Int} (h : Db.writeDraft options ts db
      { threadId := some threadId, payload := .threadUpdated { permissionMode := .val mode } at_ } = .ok (db', event)) :
    db'.projection.queuedMessages = db.projection.queuedMessages ∧
      db'.projection.runtimeRequests = db.projection.runtimeRequests ∧
      ∀ id, (db'.projection.getThread id).map (fun thread => (thread.shelf, thread.status)) =
        (db.projection.getThread id).map fun thread => (thread.shelf, thread.status) := by
  obtain ⟨rfl, happ, -⟩ := Db.writeDraft_projection h
  unfold Projection.applyEvent at happ
  rw [Db.payload_stamp_of_type_ne (by simp [Payload.type])] at happ
  obtain ⟨id, thread, next, -, -, hfind, hnext, -, hp⟩ := rewriteThread_eq_ok.mp happ
  rw [hp]
  refine ⟨rfl, rfl, fun id' => ?_⟩
  have hid : thread.id = id := Keyed.Table.key_of_find? hfind
  have hkeeps : next.id = id ∧ next.shelf = thread.shelf ∧ next.status = thread.status := by
    simp only [ServerThread.patched, JsField.overColumn, Except.bind, bind, pure, Except.pure,
      Except.ok.injEq] at hnext
    subst hnext
    exact ⟨hid, rfl, rfl⟩
  simp only [Projection.getThread, Keyed.Table.find?_set]
  split_ifs with hsame
  · have hid' : next.id = id' := hsame
    rw [← hid', hkeeps.1, hfind]
    simp [threadParams, hkeeps.2.1, hkeeps.2.2]
  · rfl

theorem noted_modePatch {thread : ServerThread} (h : w.append (w.modePatch thread mode) options = some w') :
    Noted w w' := by
  unfold modePatch at h
  split_ifs at h
  · exact noted_append (by simp) h
  · have hechoes := echoes_append (by simp [isOwn]) h
    obtain ⟨db, events, hok, rfl⟩ := append_eq_some.mp h
    have howned := fun howned => Db.append_queueOwned howned hok
    obtain ⟨m, hm, hsame⟩ := Db.append_eq_ok hok
    obtain ⟨m', event, _, hwrite, hnil, -⟩ := Fold.traceM_cons_eq_ok.mp hm
    cases hnil
    obtain ⟨hqueue, hrequests, hthreads⟩ := writeDraft_modePatch hwrite
    refine ⟨hechoes, ?_, ?_, fun id => ?_, fun hq => ?_⟩
    · rw [db_foldl_onEvent, ← hqueue, hsame.projection]
    · rw [db_foldl_onEvent, ← hrequests, hsame.projection]
    · rw [getThread, db_foldl_onEvent, hsame.projection]
      exact hthreads id
    · rw [db_foldl_onEvent]
      exact howned hq

end World

end Sightr
