import Sightr.Store.Snapshot

/-!
# The stored queue

The reads of `bridge/threads/store.ts` that the dispatcher and the drainer use, and what an accepted
batch does to the queued messages, the threads and the requests.
-/

namespace Sightr

open Keyed (Table)

namespace Projection

/-! ### Reads -/

variable (p : Projection)

def getThread (id : String) : Option ServerThread := p.threads.find? id

def getQueued (id : String) : Option QueuedMessage := p.queuedMessages.find? id

def getTurnItem (id : String) : Option TurnItem := (p.turnItems.find? id).map (·.body)

def openRun (threadId : String) : Option Run :=
  ((p.runs.rows.filter fun r => r.threadId = threadId && r.status = .running).insertionSort
    (·.ordinal ≥ ·.ordinal)).head?

def recentItems (threadId : String) (limit : Nat) : List TurnItem :=
  let items := (p.itemRows threadId).map (·.body)
  items.drop (items.length - limit)

def itemsForRun (runId : String) : List TurnItem :=
  ((p.turnItems.rows.filter (·.runId = some runId)).insertionSort (·.position ≤ ·.position)).map (·.body)

def hasOpenRequest (threadId : String) : Bool := p.pendingRequests.any (·.threadId = threadId)

variable {p : Projection} {threadId : String}

theorem mem_listQueued {row : QueuedMessage} :
    row ∈ p.listQueued threadId ↔ p.getQueued row.id = some row ∧ row.threadId = threadId := by
  rw [listQueued, List.mem_insertionSort, List.mem_filter, getQueued, ← Table.mem_rows_iff]
  simp only [decide_eq_true_eq]

theorem nodup_listQueued (p : Projection) (threadId : String) : ((p.listQueued threadId).map (·.id)).Nodup := by
  have hperm := (List.perm_insertionSort (fun a b : QueuedMessage => a.position ≤ b.position)
    (p.queuedMessages.rows.filter (·.threadId = threadId))).map (·.id)
  exact hperm.nodup_iff.mpr (p.queuedMessages.filter (·.threadId = threadId)).nodup

/-! ### Replacing a queue -/

variable {messages : List QueuedMessage} {t t' : Table QueuedMessage.id}

theorem rows_of_foldlM_insertQueued (h : messages.foldlM (insertQueued threadId) t = .ok t') :
    t'.rows = t.rows ++ messages.map fun m => { m with threadId } := by
  induction messages generalizing t with
  | nil =>
    cases h
    simp
  | cons m messages ih =>
    obtain ⟨u, hu, hl⟩ := Fold.foldlM_cons_eq_ok.mp h
    unfold insertQueued at hu
    split at hu
    · cases hu
    · rename_i hinsert
      cases hu
      rw [ih hl, Table.rows_of_insert? hinsert]
      simp

theorem listQueued_of_replaceQueue {p p' : Projection} {owner threadId : String}
    {messages : List QueuedMessage} (h : p.replaceQueue owner messages = .ok p') :
    p'.listQueued threadId = if owner = threadId
      then (messages.map fun m => { m with threadId }).insertionSort (·.position ≤ ·.position)
      else p.listQueued threadId := by
  obtain ⟨queuedMessages, hfold, -, rfl⟩ := replaceQueue_eq_ok.mp h
  have hrows := rows_of_foldlM_insertQueued hfold
  have hothers (l : List QueuedMessage) (id : String) : (l.map fun m => { m with threadId := owner }).filter
      (fun m : QueuedMessage => decide (m.threadId = id)) =
      if owner = id then l.map fun m => { m with threadId := owner } else [] := by
    split_ifs with hid <;> simp [List.filter_map, Function.comp_def, hid]
  simp only [listQueued, hrows, Table.rows_filter, List.filter_append, hothers, List.filter_filter]
  split_ifs with howner
  · subst howner
    have hnone : (p.queuedMessages.rows.filter fun m : QueuedMessage =>
        decide (m.threadId = owner) && decide (m.threadId ≠ owner)) = [] :=
      List.filter_eq_nil_iff.mpr fun m _ => by by_cases hm : m.threadId = owner <;> simp [hm]
    rw [hnone, List.nil_append]
  · have hsame : (p.queuedMessages.rows.filter fun m : QueuedMessage =>
        decide (m.threadId = threadId) && decide (m.threadId ≠ owner)) =
        p.queuedMessages.rows.filter fun m => decide (m.threadId = threadId) :=
      List.filter_congr fun m _ => by
        by_cases hm : m.threadId = threadId
        · simp [hm, Ne.symm howner]
        · simp [hm]
    rw [hsame, List.append_nil]

/-- The queue of `threadId` is `rows` now, at new positions, and the others are as they were. -/
structure QueueRewritten (threadId : String) (rows : List QueuedMessage) (p p' : Projection) : Prop where
  kept : ∀ r ∈ rows, ∃ position, p'.getQueued r.id = some { r with threadId, position }
  rest : ∀ id, (∀ r ∈ rows, r.id ≠ id) → p'.getQueued id = (p.getQueued id).filter (·.threadId ≠ threadId)

/-- No queue was replaced: a row that is gone went with its thread. -/
def QueueKept (p p' : Projection) (written : List StoredEvent) : Prop :=
  ∀ id, p'.getQueued id = p.getQueued id ∨ p'.getQueued id = none ∧ ∀ row ∈ p.getQueued id,
    ∃ event ∈ written, event.payload.type = .threadDeleted ∧ event.threadId = some row.threadId

structure SameRows (p p' : Projection) : Prop where
  queuedMessages : p'.queuedMessages = p.queuedMessages
  threads : p'.threads = p.threads
  runtimeRequests : p'.runtimeRequests = p.runtimeRequests

theorem SameRows.refl (p : Projection) : SameRows p p := ⟨rfl, rfl, rfl⟩

variable {q r : Projection}

theorem SameRows.trans (h : SameRows p q) (h' : SameRows q r) : SameRows p r :=
  ⟨h'.queuedMessages.trans h.queuedMessages, h'.threads.trans h.threads, h'.runtimeRequests.trans h.runtimeRequests⟩

variable {p' : Projection}

theorem SameRows.getQueued (h : SameRows p p') (id : String) : p'.getQueued id = p.getQueued id := by
  rw [Projection.getQueued, Projection.getQueued, h.queuedMessages]

theorem find?_foldlM_insertQueued (h : messages.foldlM (insertQueued threadId) t = .ok t') :
    (∀ m ∈ messages, t'.find? m.id = some { m with threadId }) ∧
      ∀ id, (∀ m ∈ messages, m.id ≠ id) → t'.find? id = t.find? id := by
  have hrows := rows_of_foldlM_insertQueued h
  refine ⟨fun m hm => ?_, fun id hid => ?_⟩
  · refine Table.find?_eq_some_iff.mpr ⟨?_, rfl⟩
    rw [hrows]
    exact List.mem_append_right _ (List.mem_map_of_mem hm)
  · ext row
    simp only [Table.find?_eq_some_iff, hrows, List.mem_append, List.mem_map]
    refine and_congr_left fun hrow => or_iff_left_of_imp ?_
    rintro ⟨m, hm, rfl⟩
    exact absurd hrow (hid m hm)

theorem replaceQueue_rewritten {rows : List QueuedMessage}
    (hmessages : ∀ r ∈ rows, ∃ position, { r with position } ∈ messages)
    (hrows : ∀ m ∈ messages, ∃ r ∈ rows, r.id = m.id) (h : p.replaceQueue threadId messages = .ok p') :
    QueueRewritten threadId rows p p' := by
  obtain ⟨t, hfold, -, rfl⟩ := replaceQueue_eq_ok.mp h
  obtain ⟨hin, hout⟩ := find?_foldlM_insertQueued hfold
  refine ⟨fun r hr => ?_, fun id hid => ?_⟩
  · obtain ⟨position, hm⟩ := hmessages r hr
    exact ⟨position, hin _ hm⟩
  · have hother : ∀ m ∈ messages, m.id ≠ id := by
      intro m hm heq
      obtain ⟨r, hr, hid'⟩ := hrows m hm
      exact hid r hr (hid'.trans heq)
    show t.find? id = _
    rw [hout id hother, Table.find?_filter]
    rfl

/-! ### The queue's foreign key -/

def QueueOwned (p : Projection) : Prop :=
  ∀ id row, p.getQueued id = some row → row.threadId ≠ "" ∧ (p.getThread row.threadId).isSome = true

theorem QueueOwned.empty : QueueOwned empty := by
  intro id row h
  simp [getQueued, Projection.empty] at h

theorem QueueOwned.of_getThread (h : p.QueueOwned) (hqueue : p'.queuedMessages = p.queuedMessages)
    (hthreads : ∀ id, (p.getThread id).isSome = true → (p'.getThread id).isSome = true) :
    p'.QueueOwned := by
  intro id row hrow
  rw [getQueued, hqueue] at hrow
  obtain ⟨hne, howner⟩ := h id row hrow
  exact ⟨hne, hthreads _ howner⟩

theorem QueueOwned.deleteThread (h : p.QueueOwned) (threadId : String) : (p.deleteThread threadId).QueueOwned := by
  intro id row hrow
  simp only [getQueued, Projection.deleteThread, Table.find?_filter, Option.filter_eq_some_iff,
    decide_eq_true_eq] at hrow
  obtain ⟨hne, howner⟩ := h id row hrow.1
  refine ⟨hne, ?_⟩
  obtain ⟨thread, hthread⟩ := Option.isSome_iff_exists.mp howner
  have hid : thread.id = row.threadId := Table.key_of_find? hthread
  simp only [getThread, Projection.deleteThread, Table.find?_filter]
  rw [getThread] at hthread
  rw [hthread]
  simp [hid, hrow.2]

theorem QueueOwned.replaceQueue (h : p.QueueOwned) (hne : threadId ≠ "")
    (happ : p.replaceQueue threadId messages = .ok p') : p'.QueueOwned := by
  obtain ⟨t, hfold, howner, rfl⟩ := replaceQueue_eq_ok.mp happ
  intro id row hrow
  have hmem : row ∈ t.rows := Table.mem_of_find? hrow
  rw [rows_of_foldlM_insertQueued hfold, List.mem_append] at hmem
  rcases hmem with hmem | hmem
  · exact h row.id row (Table.find?_key (List.mem_filter.mp hmem).1)
  · obtain ⟨m, hm, rfl⟩ := List.mem_map.mp hmem
    refine ⟨hne, howner.resolve_left ?_⟩
    rintro rfl
    exact absurd hm List.not_mem_nil

variable {event : StoredEvent}

theorem QueueOwned.applyEvent (h : p.QueueOwned) (happ : p.applyEvent event = .ok p') : p'.QueueOwned := by
  have hset (thread : ServerThread) (id : String) (hid : (p.threads.find? id).isSome = true) :
      ((p.threads.set thread).find? id).isSome = true := by
    rw [Table.find?_set]
    split_ifs
    · rfl
    · exact hid
  cases applied_of_applyEvent happ with
  | queueUpdated _ _ hne hqueue => exact h.replaceQueue hne hqueue
  | threadDeleted => exact h.deleteThread _
  | threadCreated _ hinsert =>
    refine h.of_getThread rfl fun id hid => ?_
    rw [getThread, Table.find?_insert? hinsert]
    split_ifs
    · rfl
    · exact hid
  | threadUpdated | threadShelfChanged | threadArchived => exact h.of_getThread rfl fun id hid => hset _ id hid
  | _ => exact h.of_getThread rfl fun _ => id

/-! ### One event -/

/-- The events a dispatch writes beside its queue: an item, or a notice. -/
def isDispatchNotice (draft : EventDraft) : Bool :=
  draft.payload.type = .turnItemUpdated || draft.payload.type = .dispatchFailed

@[simp] abbrev AllNotices (drafts : List EventDraft) : Prop := ∀ draft ∈ drafts, isDispatchNotice draft = true

theorem applyEvent_sameRows (htype : event.payload.type = .turnItemUpdated ∨ event.payload.type = .dispatchFailed)
    (h : p.applyEvent event = .ok p') : SameRows p p' := by
  cases applied_of_applyEvent h with
  | turnItemUpdated => exact ⟨rfl, rfl, rfl⟩
  | notice => exact .refl p
  | _ => simp_all [Payload.type]

section

variable (htype : event.payload.type ≠ .queueUpdated)
include htype

section

variable (h : p.applyEvent event = .ok p')
include h

theorem applyEvent_queuedMessages : p'.queuedMessages = p.queuedMessages ∨
      ∃ threadId, event.payload.type = .threadDeleted ∧ event.threadId = some threadId ∧
        p'.queuedMessages = p.queuedMessages.filter (·.threadId ≠ threadId) := by
  cases applied_of_applyEvent h with
  | queueUpdated hpay => exact absurd (by rw [hpay]; rfl) htype
  | threadDeleted hpay hid => exact .inr ⟨_, by rw [hpay]; rfl, hid, rfl⟩
  | _ => exact .inl rfl

theorem applyEvent_queueKept : QueueKept p p' [event] := by
  intro id
  rcases applyEvent_queuedMessages htype h with hsame | ⟨threadId, hdeleted, hid, hfilter⟩
  · exact .inl (by rw [getQueued, getQueued, hsame])
  · simp only [getQueued, hfilter, Table.find?_filter]
    cases hrow : p.queuedMessages.find? id with
    | none => exact .inl rfl
    | some row =>
      by_cases hthread : row.threadId = threadId
      · refine .inr ⟨by simp [hthread], fun row' hrow' => ?_⟩
        cases hrow'
        exact ⟨event, List.mem_singleton_self _, hdeleted, hthread ▸ hid⟩
      · exact .inl (by simp [hthread])

theorem listQueued_applyEvent (threadId : String) :
    p'.listQueued threadId = p.listQueued threadId ∨ p'.listQueued threadId = [] := by
  rcases applyEvent_queuedMessages htype h with hsame | ⟨deleted, -, -, hfilter⟩
  · exact .inl (by rw [listQueued, hsame, listQueued])
  · rw [listQueued, hfilter, Table.rows_filter, List.filter_filter]
    by_cases hthread : threadId = deleted
    · refine .inr ?_
      have hnone : (p.queuedMessages.rows.filter fun row : QueuedMessage =>
          decide (row.threadId = threadId) && decide (row.threadId ≠ deleted)) = [] :=
        List.filter_eq_nil_iff.mpr fun row _ => by by_cases hrow : row.threadId = deleted <;> simp [hthread, hrow]
      rw [hnone]
      rfl
    · refine .inl ?_
      rw [listQueued]
      congr 1
      refine List.filter_congr fun row _ => ?_
      by_cases hrow : row.threadId = threadId <;> simp [hrow, hthread]

end

end

theorem QueueKept.refl (p : Projection) (written : List StoredEvent) : QueueKept p p written :=
  fun _ => .inl rfl

theorem QueueKept.trans {written more : List StoredEvent} (h : QueueKept p q written) (h' : QueueKept q r more) :
    QueueKept p r (written ++ more) := by
  intro id
  rcases h id with hsame | ⟨hnone, hgone⟩
  · rcases h' id with hsame' | ⟨hnone', hgone'⟩
    · exact .inl (hsame'.trans hsame)
    · refine .inr ⟨hnone', fun row hrow => ?_⟩
      obtain ⟨event, hevent, htype⟩ := hgone' row (hsame ▸ hrow)
      exact ⟨event, List.mem_append_right _ hevent, htype⟩
  · refine .inr ⟨?_, fun row hrow => ?_⟩
    · rcases h' id with hsame' | ⟨hnone', -⟩
      · exact hsame'.trans hnone
      · exact hnone'
    · obtain ⟨event, hevent, htype⟩ := hgone row hrow
      exact ⟨event, List.mem_append_left _ hevent, htype⟩

end Projection

/-! ### A batch -/

namespace Db

open Projection

variable {db db' : Db} {batch : Batch} {written : List StoredEvent}

theorem exists_draft_of_written (h : db.append batch = .ok (db', written)) :
    ∀ event ∈ written, ∃ draft ∈ batch.drafts,
      event.payload.type = draft.payload.type ∧ event.threadId = draft.threadId ∧
        (draft.payload.type ≠ .turnItemUpdated → event.payload = draft.payload) := by
  obtain ⟨m, hm, -⟩ := append_eq_ok h
  have hall := Fold.traceM_invariant (C := fun _ draft => draft ∈ batch.drafts)
    (P := fun _ sofar => ∀ event ∈ sofar, ∃ draft ∈ batch.drafts,
      event.payload.type = draft.payload.type ∧ event.threadId = draft.threadId ∧
        (draft.payload.type ≠ .turnItemUpdated → event.payload = draft.payload))
    (w := []) ?_ (by simp) (Fold.along_of_forall fun _ _ hd => hd) hm
  · simpa using hall
  · intro s sofar draft s' event hs hdraft hwrite event' hevent'
    rcases List.mem_append.mp hevent' with hevent' | hevent'
    · exact hs event' hevent'
    · obtain rfl := List.mem_singleton.mp hevent'
      obtain ⟨rfl, -⟩ := writeDraft_eq_ok.mp hwrite
      exact ⟨draft, hdraft, type_stamp .., threadId_stamp .., payload_stamp_of_type_ne⟩

section

variable (hdrafts : ∀ draft ∈ batch.drafts, draft.payload.type ≠ .queueUpdated)
include hdrafts

section

variable (h : db.append batch = .ok (db', written))
include h

/-- A batch that carries no queue drops only the rows of the threads it deletes. -/
theorem append_queueKept : QueueKept db.projection db'.projection written := by
  obtain ⟨m, hm, hsame⟩ := append_eq_ok h
  have hall := Fold.traceM_invariant (C := fun _ draft => draft.payload.type ≠ .queueUpdated)
    (P := fun m sofar => QueueKept db.projection m.projection sofar) (w := []) ?_
    (.refl _ _) (Fold.along_of_forall fun _ draft hd => hdrafts draft hd) hm
  · rw [hsame.projection]
    simpa using hall
  · intro s sofar draft s' event hs hdraft hwrite
    obtain ⟨rfl, happ, -⟩ := writeDraft_projection hwrite
    exact hs.trans (applyEvent_queueKept (by rwa [type_stamp]) happ)

theorem append_listQueued (threadId : String) :
    db'.projection.listQueued threadId = db.projection.listQueued threadId ∨
      db'.projection.listQueued threadId = [] := by
  obtain ⟨m, hm, hsame⟩ := append_eq_ok h
  rw [hsame.projection]
  refine Fold.traceM_invariant (C := fun _ draft => draft.payload.type ≠ .queueUpdated)
    (P := fun m _ => m.projection.listQueued threadId = db.projection.listQueued threadId ∨
      m.projection.listQueued threadId = []) (w := []) ?_ (.inl rfl)
    (Fold.along_of_forall fun _ draft hd => hdrafts draft hd) hm
  intro s sofar draft s' event hs hdraft hwrite
  obtain ⟨rfl, happ, -⟩ := writeDraft_projection hwrite
  rcases listQueued_applyEvent (by rwa [type_stamp]) happ threadId with heq | hnone
  · rwa [heq]
  · exact .inr hnone

end

end

variable {options : AppendOptions} {ts : Int}

theorem writeDraft_sameRows {draft : EventDraft} {event : StoredEvent}
    (hdraft : isDispatchNotice draft = true) (h : writeDraft options ts db draft = .ok (db', event)) :
    SameRows db.projection db'.projection := by
  obtain ⟨rfl, happ, -⟩ := writeDraft_projection h
  refine applyEvent_sameRows ?_ happ
  rw [type_stamp]
  simpa [isDispatchNotice] using hdraft

theorem traceM_sameRows {drafts : List EventDraft} (hdrafts : AllNotices drafts)
    (h : Fold.traceM (writeDraft options ts) db drafts = .ok (db', written)) :
    SameRows db.projection db'.projection :=
  Fold.traceM_invariant (C := fun _ draft => isDispatchNotice draft = true)
    (P := fun m _ => SameRows db.projection m.projection) (w := [])
    (fun _ _ _ _ _ hs hdraft hwrite => hs.trans (writeDraft_sameRows hdraft hwrite)) (.refl _)
    (Fold.along_of_forall fun _ draft hd => hdrafts draft hd) h

theorem append_sameRows (hdrafts : AllNotices batch.drafts)
    (h : db.append batch = .ok (db', written)) : SameRows db.projection db'.projection := by
  obtain ⟨m, hm, hsame⟩ := append_eq_ok h
  rw [hsame.projection]
  exact traceM_sameRows hdrafts hm

variable {before after : List EventDraft} {threadId : String} {messages : List QueuedMessage}
  {change : Option QueueChange} {reason : Option String}

theorem replaceQueue_of_append (hdrafts : batch.drafts = before ++ {
      threadId := some threadId, payload := .queueUpdated messages change reason } :: after)
    (hbefore : AllNotices before) (hafter : AllNotices after) (h : db.append batch = .ok (db', written)) :
    ∃ p p', SameRows db.projection p ∧ p.replaceQueue threadId messages = .ok p' ∧ SameRows p' db'.projection := by
  obtain ⟨m, hm, hsame⟩ := append_eq_ok h
  rw [hdrafts] at hm
  obtain ⟨m₁, _, _, hbeforeRun, hrest, -⟩ := Fold.traceM_append_eq_ok.mp hm
  obtain ⟨m₂, event, _, hwrite, hafterRun, -⟩ := Fold.traceM_cons_eq_ok.mp hrest
  obtain ⟨rfl, happ, -⟩ := writeDraft_projection hwrite
  unfold Projection.applyEvent at happ
  rw [payload_stamp_of_type_ne (by simp [Payload.type])] at happ
  obtain ⟨owner, howner, happ⟩ := Except.bind_eq_ok.mp happ
  have hid := (requireThreadId_eq_ok.mp howner).1
  rw [threadId_stamp] at hid
  obtain rfl := Option.some.inj hid
  exact ⟨_, _, traceM_sameRows hbefore hbeforeRun, happ, hsame.projection ▸ traceM_sameRows hafter hafterRun⟩

/-- A batch that carries one queue, beside notices, replaces that queue and nothing else. -/
theorem append_queueRewritten {rows : List QueuedMessage} (hdrafts : batch.drafts = before ++ {
      threadId := some threadId, payload := .queueUpdated messages change reason } :: after)
    (hbefore : AllNotices before) (hafter : AllNotices after)
    (hmessages : ∀ r ∈ rows, ∃ position, { r with position } ∈ messages)
    (hrows : ∀ m ∈ messages, ∃ r ∈ rows, r.id = m.id) (h : db.append batch = .ok (db', written)) :
    QueueRewritten threadId rows db.projection db'.projection ∧ db'.projection.threads = db.projection.threads ∧
      db'.projection.runtimeRequests = db.projection.runtimeRequests := by
  obtain ⟨p, p', hsame, hreplace, hsame'⟩ := replaceQueue_of_append hdrafts hbefore hafter h
  have hwritten := replaceQueue_rewritten hmessages hrows hreplace
  obtain ⟨_, -, -, rfl⟩ := replaceQueue_eq_ok.mp hreplace
  refine ⟨⟨fun r hr => ?_, fun id hout => ?_⟩, ?_, ?_⟩
  · obtain ⟨position, hr⟩ := hwritten.kept r hr
    exact ⟨position, (hsame'.getQueued r.id).trans hr⟩
  · rw [hsame'.getQueued, hwritten.rest id hout, hsame.getQueued]
  · exact hsame'.threads.trans hsame.threads
  · exact hsame'.runtimeRequests.trans hsame.runtimeRequests

/-- The queue that a batch carries, beside notices, is what the thread's list gives; the others are as they were. -/
theorem append_queue_listQueued {owner : String} (hdrafts : batch.drafts = before ++ {
      threadId := some owner, payload := .queueUpdated messages change reason } :: after)
    (hbefore : AllNotices before) (hafter : AllNotices after) (h : db.append batch = .ok (db', written))
    (threadId : String) :
    db'.projection.listQueued threadId = if owner = threadId
      then (messages.map fun m => { m with threadId }).insertionSort (·.position ≤ ·.position)
      else db.projection.listQueued threadId := by
  obtain ⟨p, p', hsame, hreplace, hsame'⟩ := replaceQueue_of_append hdrafts hbefore hafter h
  have hlist {p p' : Projection} (hrows : SameRows p p') : p'.listQueued threadId = p.listQueued threadId := by
    rw [listQueued, hrows.queuedMessages, listQueued]
  rw [hlist hsame', listQueued_of_replaceQueue hreplace, hlist hsame]

theorem writeDraft_notice {options : AppendOptions} {ts : Int} {db : Db} {draft : EventDraft}
    (hdraft : isDispatchNotice draft = true)
    (hitem : ∀ item, draft.payload = .turnItemUpdated item →
      (db.projection.getThread item.threadId).isSome = true) :
    ∃ db' event, writeDraft options ts db draft = .ok (db', event) := by
  have htype : draft.payload.type ≠ .threadDeleted := by
    intro h
    simp [isDispatchNotice, h] at hdraft
  suffices happ : ∃ p, db.projection.applyEvent (db.stamp options ts draft) = .ok p by
    obtain ⟨p, hp⟩ := happ
    obtain ⟨db', hdb', -⟩ := writeDraft_of_applyEvent htype hp
    exact ⟨db', _, hdb'⟩
  cases hpay : draft.payload with
  | turnItemUpdated item =>
    obtain ⟨ordinal, hord⟩ : ∃ ordinal, (db.stamp options ts draft).payload =
        .turnItemUpdated (item.at (some ordinal)) := by
      simp only [stamp, Projection.prepare, hpay]
      cases hordinal : item.ordinal with
      | none => exact ⟨_, rfl⟩
      | some ordinal =>
        refine ⟨ordinal, ?_⟩
        simp only [hpay, TurnItemOf.at, ← hordinal]
    unfold Projection.applyEvent
    rw [hord]
    exact ⟨_, upsertTurnItem_eq_ok.mpr ⟨hitem item hpay, rfl⟩⟩
  | dispatchFailed =>
    unfold Projection.applyEvent
    rw [payload_stamp_of_type_ne (by rw [hpay]; simp [Payload.type]), hpay]
    exact ⟨_, rfl⟩
  | _ => simp [isDispatchNotice, hpay, Payload.type] at hdraft

private theorem traceM_notices {options : AppendOptions} {ts : Int} {db : Db}
    {drafts : List EventDraft} (hdrafts : AllNotices drafts)
    (hitems : ∀ draft ∈ drafts, ∀ item, draft.payload = .turnItemUpdated item →
      (db.projection.getThread item.threadId).isSome = true) :
    ∃ db' written, Fold.traceM (writeDraft options ts) db drafts = .ok (db', written) := by
  induction drafts generalizing db with
  | nil => exact ⟨db, [], rfl⟩
  | cons draft drafts ih =>
    obtain ⟨m, event, hm⟩ := @writeDraft_notice options ts db draft
      (hdrafts draft List.mem_cons_self) (hitems draft List.mem_cons_self)
    have hsame := writeDraft_sameRows (hdrafts draft List.mem_cons_self) hm
    obtain ⟨db', written, hrest⟩ := @ih m (fun d hd => hdrafts d (List.mem_cons_of_mem _ hd)) (by
      intro d hd item hpay
      rw [Projection.getThread, hsame.threads]
      exact hitems d (List.mem_cons_of_mem _ hd) item hpay)
    exact ⟨db', event :: written, Fold.traceM_cons_eq_ok.mpr ⟨m, event, written, hm, hrest, rfl⟩⟩

theorem foldlM_insertQueued_ok {threadId : String} {messages : List QueuedMessage}
    {t : Table QueuedMessage.id} (hnodup : (messages.map (·.id)).Nodup)
    (hnew : ∀ m ∈ messages, t.find? m.id = none) :
    ∃ t', messages.foldlM (insertQueued threadId) t = .ok t' := by
  induction messages generalizing t with
  | nil => exact ⟨t, rfl⟩
  | cons m messages ih =>
    rw [List.map_cons, List.nodup_cons] at hnodup
    have hm : m.id ∉ t.rows.map (·.id) := by
      intro hmem
      obtain ⟨s, hs, hid⟩ := List.mem_map.mp hmem
      exact Table.find?_eq_none_iff.mp (hnew m List.mem_cons_self) s hs hid
    obtain ⟨u, hu⟩ : ∃ u, t.insert? { m with threadId } = some u := by
      unfold Table.insert?
      rw [dif_neg hm]
      exact ⟨_, rfl⟩
    obtain ⟨t', ht'⟩ := @ih u hnodup.2 (by
      intro n hn
      rw [Table.find?_insert? hu, if_neg]
      · exact hnew n (List.mem_cons_of_mem _ hn)
      · intro hid
        exact hnodup.1 (List.mem_map.mpr ⟨n, hn, hid.symm⟩))
    refine ⟨t', Fold.foldlM_cons_eq_ok.mpr ⟨u, ?_, ht'⟩⟩
    simp only [insertQueued, hu]

/-- A queue of rows that are in it already, beside notices, is accepted where the thread is there. -/
theorem append_queue_ok (hne : threadId ≠ "") (hthread : (db.projection.getThread threadId).isSome = true)
    (hnodup : (messages.map (·.id)).Nodup)
    (hmessages : ∀ m ∈ messages, ∀ row, db.projection.getQueued m.id = some row → row.threadId = threadId)
    (hbefore : ∀ draft ∈ before, isDispatchNotice draft = true ∧ ∀ item, draft.payload = .turnItemUpdated item →
      item.threadId = threadId)
    (hafter : ∀ draft ∈ after, isDispatchNotice draft = true ∧ ∀ item, draft.payload = .turnItemUpdated item →
      item.threadId = threadId) :
    ∃ db' written, db.append
      { drafts := before ++
          { threadId := some threadId, payload := .queueUpdated messages change reason } :: after
        ts } = .ok (db', written) := by
  have hitems {drafts : List EventDraft} (m : Db)
      (hm : m.projection.getThread threadId = db.projection.getThread threadId)
      (h : ∀ draft ∈ drafts, isDispatchNotice draft = true ∧
        ∀ item, draft.payload = .turnItemUpdated item → item.threadId = threadId) :
      ∀ draft ∈ drafts, ∀ item, draft.payload = .turnItemUpdated item →
        (m.projection.getThread item.threadId).isSome = true := by
    intro draft hdraft item hpay
    rw [(h draft hdraft).2 item hpay, hm]
    exact hthread
  obtain ⟨m₁, w₁, hm₁⟩ := @traceM_notices {} ts db before (fun d hd => (hbefore d hd).1)
    (hitems db rfl hbefore)
  have hsame₁ := traceM_sameRows (fun d hd => (hbefore d hd).1) hm₁
  obtain ⟨t, ht⟩ := @foldlM_insertQueued_ok threadId messages
    (m₁.projection.queuedMessages.filter (·.threadId ≠ threadId)) hnodup (by
      intro m hm
      rw [Table.find?_filter, hsame₁.queuedMessages]
      cases hrow : db.projection.queuedMessages.find? m.id with
      | none => rfl
      | some row => simp [hmessages m hm row hrow])
  have hthread₁ : m₁.projection.threads.has threadId = true := by
    rw [hsame₁.threads]
    exact hthread
  have hreplace : m₁.projection.replaceQueue threadId messages = .ok { m₁.projection with queuedMessages := t } :=
    replaceQueue_eq_ok.mpr ⟨t, ht, .inr hthread₁, rfl⟩
  have happ : m₁.projection.applyEvent (m₁.stamp {} ts
      { threadId := some threadId, payload := .queueUpdated messages change reason }) =
        .ok { m₁.projection with queuedMessages := t } := by
    unfold Projection.applyEvent
    rw [payload_stamp_of_type_ne (by simp [Payload.type])]
    exact Except.bind_eq_ok.mpr ⟨threadId, requireThreadId_eq_ok.mpr ⟨threadId_stamp .., hne⟩, hreplace⟩
  obtain ⟨m₂, hm₂, hp₂⟩ := writeDraft_of_applyEvent (by simp [Payload.type]) happ
  have hthreads₂ : m₂.projection.getThread threadId = db.projection.getThread threadId := by
    rw [hp₂, Projection.getThread, Projection.getThread, hsame₁.threads]
  obtain ⟨m₃, w₃, hm₃⟩ := @traceM_notices {} ts m₂ after (fun d hd => (hafter d hd).1)
    (hitems m₂ hthreads₂ hafter)
  have hall := Fold.traceM_append_eq_ok.mpr ⟨m₁, w₁, _, hm₁,
    Fold.traceM_cons_eq_ok.mpr ⟨m₂, _, w₃, hm₂, hm₃, rfl⟩, rfl⟩
  exact ⟨m₃, _, append_of_traceM hall⟩

theorem append_notices_ok {db : Db} {ts : Int} {drafts : List EventDraft} {commandId : String}
    {receipt : String × Option String} (hdrafts : AllNotices drafts)
    (hitems : ∀ draft ∈ drafts, ∀ item, draft.payload = .turnItemUpdated item →
      (db.projection.getThread item.threadId).isSome = true) (hnew : db.receipts.find? commandId = none) :
    ∃ db' written, db.append { drafts, options := { commandId := some commandId, receipt := some receipt }, ts } =
      .ok (db', written) := by
  obtain ⟨m, written, hm⟩ := @traceM_notices { commandId := some commandId, receipt := some receipt } ts db drafts
    hdrafts hitems
  obtain ⟨db', happ⟩ := append_receipted_ok hm hnew
  exact ⟨db', written, happ⟩

theorem append_queueOwned (h : db.projection.QueueOwned) (happ : db.append batch = .ok (db', written)) :
    db'.projection.QueueOwned := by
  obtain ⟨m, hm, hsame⟩ := append_eq_ok happ
  rw [hsame.projection]
  exact Fold.traceM_invariant (C := fun _ _ => True) (P := fun m _ => m.projection.QueueOwned)
    (w := []) (fun _ _ _ _ _ hs _ hwrite => hs.applyEvent (writeDraft_projection hwrite).2.1) h
    (Fold.along_of_forall fun _ _ _ => trivial) hm

end Db

end Sightr
