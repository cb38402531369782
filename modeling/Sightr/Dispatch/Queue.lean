import Sightr.Lib.JsText
import Sightr.Store.Queue

/-!
# Queues

The pure helpers of `bridge/threads/queue-drain.ts`, and the changes the dispatcher makes to a queue.
-/

namespace Sightr

open Projection

/-! ### Settled threads and maintenance runs -/

def isSettled (status : ThreadStatus) : Bool := status = .idle || status = .done

/-- A harness command that cannot take steering input. -/
def isNativeMaintenanceCommand (text : String) (attachments : List ChatAttachment) : Bool :=
  attachments.isEmpty &&
    ["/compact", "/logout"].contains (String.ofList ((JsText.trim text.toList).map Char.toLower))

/-- How many of the newest items to search for the open run's message when no item is linked yet. -/
def UNLINKED_USER_ITEM_SCAN : Nat := 50

/-- A `user_message` item's run, text and attachments. -/
def userMessageOf (item : TurnItem) : Option (Option String × String × List ChatAttachment) :=
  match item.body with
  | .userMessage _ text attachments _ => some (item.runId, text, attachments)
  | _ => none

/-- Did the thread's open run start from a maintenance command, or is the harness compacting? -/
def openRunIsMaintenance (p : Projection) (threadId : String) : Bool :=
  if (p.getThread threadId).any fun thread => thread.compacting = some true then true
  else
    match p.openRun threadId with
    | none => false
    | some run =>
      let linked := ((run.userItemId.filter (· ≠ "")).bind p.getTurnItem).bind userMessageOf
      let message := linked
        <|> (p.itemsForRun run.id).findSome? userMessageOf
        <|> ((p.recentItems threadId UNLINKED_USER_ITEM_SCAN).filterMap userMessageOf).getLast?
      match message with
      | none => false
      | some (runId, text, attachments) =>
        if runId.any (· ≠ run.id) then false else isNativeMaintenanceCommand text attachments

/-! ### Queue events -/

def normalizeQueue (rows : List QueuedMessage) : List QueuedMessage :=
  (rows.insertionSort (·.position ≤ ·.position)).mapIdx fun position row => { row with position }

/-- The `queue.updated` draft for a thread's whole queue after a change. -/
def queueEvent (threadId : String) (messages : List QueuedMessage)
    (change : Option QueueChange := none) (reason : Option String := none) : EventDraft where
  threadId := some threadId
  payload := .queueUpdated (normalizeQueue messages) change (reason.filter (· ≠ ""))

/-- A row taken off the send path and kept for the operator to resume or cancel. -/
def heldRow (row : QueuedMessage) (reason : String) : QueuedMessage :=
  { row with state := .held, heldReason := some reason }

def unheldRow (row : QueuedMessage) : QueuedMessage := { row with heldReason := none, state := .queued }

/-- Swap one row for `next` (or drop it with none) in the thread's current queue. -/
def withRow (p : Projection) (threadId id : String) (next : Option QueuedMessage) : Option (List QueuedMessage) :=
  let rows := p.listQueued threadId
  if !rows.any (·.id = id) then none
  else some (rows.flatMap fun r => if r.id ≠ id then [r] else next.toList)

def dispatchFailed (threadId reason : String) (message : Option String := none)
    (textDelivered : Option Bool := none) (queuedId : Option String := none) : EventDraft where
  threadId := some threadId
  payload := .dispatchFailed reason message textDelivered queuedId

variable {rows : List QueuedMessage}

theorem mem_normalizeQueue {m : QueuedMessage} :
    m ∈ normalizeQueue rows → ∃ r ∈ rows, ∃ position, m = { r with position } := by
  intro h
  obtain ⟨i, hi, rfl⟩ := List.mem_mapIdx.mp h
  exact ⟨_, (List.mem_insertionSort _).mp (List.getElem_mem hi), _, rfl⟩

theorem exists_mem_normalizeQueue {r : QueuedMessage} (h : r ∈ rows) :
    ∃ position, { r with position } ∈ normalizeQueue rows := by
  have hsorted : r ∈ rows.insertionSort (·.position ≤ ·.position) := (List.mem_insertionSort _).mpr h
  obtain ⟨i, hi, rfl⟩ := List.getElem_of_mem hsorted
  exact ⟨i, List.mem_mapIdx.mpr ⟨i, hi, rfl⟩⟩

variable {db : Db} {before after : List EventDraft} {threadId : String} {change : Option QueueChange}
  {reason : Option String}

/-- A batch with a `queueEvent`, beside notices, makes its rows the thread's queue. -/
theorem Db.append_queueEvent {db' : Db} {batch : Batch} {written : List StoredEvent}
    (hdrafts : batch.drafts = before ++ queueEvent threadId rows change reason :: after) (hbefore : AllNotices before)
    (hafter : AllNotices after) (h : db.append batch = .ok (db', written)) :
    QueueRewritten threadId rows db.projection db'.projection ∧ db'.projection.threads = db.projection.threads ∧
      db'.projection.runtimeRequests = db.projection.runtimeRequests := by
  refine append_queueRewritten hdrafts hbefore hafter (fun r hr => exists_mem_normalizeQueue hr) (fun m hm => ?_) h
  obtain ⟨r, hr, position, rfl⟩ := mem_normalizeQueue hm
  exact ⟨r, hr, rfl⟩

theorem nodup_normalizeQueue (h : (rows.map (·.id)).Nodup) : ((normalizeQueue rows).map (·.id)).Nodup := by
  have hids : (normalizeQueue rows).map (·.id) = (rows.insertionSort (·.position ≤ ·.position)).map (·.id) := by
    refine List.ext_getElem (by simp [normalizeQueue]) fun i _ _ => ?_
    simp [normalizeQueue]
  rw [hids]
  have hperm := (List.perm_insertionSort (fun a b : QueuedMessage => a.position ≤ b.position)
    rows).map (·.id)
  exact hperm.nodup_iff.mpr h

theorem Db.append_queueEvent_ok {ts : Int} (hne : threadId ≠ "")
    (hthread : (db.projection.getThread threadId).isSome = true) (hnodup : (rows.map (·.id)).Nodup)
    (hrows : ∀ r ∈ rows, ∀ row, db.projection.getQueued r.id = some row → row.threadId = threadId)
    (hbefore : ∀ draft ∈ before, isDispatchNotice draft = true ∧ ∀ item, draft.payload = .turnItemUpdated item →
      item.threadId = threadId)
    (hafter : ∀ draft ∈ after, isDispatchNotice draft = true ∧ ∀ item, draft.payload = .turnItemUpdated item →
      item.threadId = threadId) :
    ∃ db' written, db.append
      { drafts := before ++ queueEvent threadId rows change reason :: after, ts } = .ok (db', written) := by
  refine append_queue_ok hne hthread (nodup_normalizeQueue hnodup) (fun m hm row hrow => ?_)
    hbefore hafter
  obtain ⟨r, hr, position, rfl⟩ := mem_normalizeQueue hm
  exact hrows r hr row hrow

end Sightr
