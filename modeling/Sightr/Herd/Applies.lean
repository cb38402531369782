import Sightr.Herd.Fate
import Sightr.Herd.Projects
import Sightr.Herd.Shelf
import Sightr.Store.Requests

/-!
# A diff applies

The store takes every diff. The diff works on a copy of the threads and appends an event with each of its
moves; the event rewrites the store's row as the move rewrote the copy, so the two stay in step. No event
names a row that is not there, and no pane and terminal is given to a second thread, because the diff
looks the pair up first.
-/

namespace Sightr

open Keyed (Table)

/-! ### Copies and rows -/

variable (t : ServerThread)

/-- The row the store keeps for a diff's copy: an archived thread has no field of its last shelf. -/
def storedCopy : ServerThread :=
  if t.shelf = .archived then
    { t with snoozedUntil := none, pinnedAt := none, pinOrder := none, settledAt := none }
  else t

/-- A patch as the diff writes them: no property is `undefined`. -/
structure HerdPatch (p : ServerThreadPatch) : Prop where
  title : p.title ≠ .undef
  titleSource : p.titleSource ≠ .undef
  harness : p.harness ≠ .undef
  status : p.status ≠ .undef
  unreadDone : p.unreadDone ≠ .undef
  lastActivityAt : p.lastActivityAt ≠ .undef
  capabilities : p.capabilities ≠ .undef
  terminalId : p.terminalId ≠ .undef
  compacting : p.compacting = .absent

variable {α : Type}

theorem overColumn_eq {column : String} {f : JsField α} {old : α} (h : f ≠ .undef) :
    f.overColumn column old = .ok ((f.spreadOver (some old)).getD old) := by
  cases f with
  | undef => exact absurd rfl h
  | absent | val => rfl

theorem HerdPatch.patched_eq {p : ServerThreadPatch} (h : HerdPatch p) (thread : ServerThread) (at_ : Int) :
    thread.patched p at_ = .ok (applyPatch thread p at_) := by
  have hunread : (p.unreadDone.spreadOver (some thread.unreadDone)).getD false =
      (p.unreadDone.spreadOver (some thread.unreadDone)).getD thread.unreadDone := by
    cases hfield : p.unreadDone with
    | undef => exact absurd hfield h.unreadDone
    | absent | val => rfl
  unfold ServerThread.patched
  rw [overColumn_eq h.title, overColumn_eq h.titleSource, overColumn_eq h.harness, overColumn_eq h.status,
    overColumn_eq h.lastActivityAt, overColumn_eq h.capabilities, overColumn_eq h.terminalId, hunread]
  rfl

theorem changed_ne_undef [DecidableEq α] (old new : α) : changed old new ≠ .undef := by
  unfold changed
  split_ifs <;> simp

theorem herdPatch_panePatch (projection : HerdProjection) (ctx : HerdDiffContext) (pane : AgentView)
    (adopted : Bool) (current : ServerThread) : HerdPatch (panePatch projection ctx pane adopted current) := by
  constructor <;> unfold panePatch <;> dsimp only
  · split_ifs
    · simp
    · exact changed_ne_undef _ _
  · simp
  · split_ifs
    · simp
    · exact changed_ne_undef _ _
  · exact changed_ne_undef _ _
  · split_ifs
    · simp
    · exact changed_ne_undef _ _
  · split
    · simp
    · exact changed_ne_undef _ _
  · split_ifs
    · simp
    · exact changed_ne_undef _ _
  · split_ifs <;> simp

theorem herdPatch_paneAlive (alive : Bool) : HerdPatch { paneAlive := .val alive } := by
  constructor <;> simp

/-! ### Moves on rows -/

theorem storedCopy_applyPatch (p : ServerThreadPatch) (at_ : Int) :
    storedCopy (applyPatch t p at_) = applyPatch (storedCopy t) p at_ := by
  unfold storedCopy
  have hshelf : (applyPatch t p at_).shelf = t.shelf := rfl
  rw [hshelf]
  split_ifs <;> rfl

theorem storedCopy_reshelved (at_ : Int) :
    storedCopy (t.reshelved .active none none at_) = (storedCopy t).reshelved .active none none at_ := by
  unfold storedCopy
  have hshelf : (t.reshelved .active none none at_).shelf = .active := rfl
  rw [hshelf]
  split_ifs <;> rfl

theorem storedCopy_archived (reason : ArchiveReason) (at_ : Int) :
    storedCopy { t with shelf := .archived, archivedAt := some at_, archiveReason := some reason, updatedAt := at_ } =
      (storedCopy t).archived reason at_ := by
  unfold storedCopy
  rw [if_pos rfl]
  split_ifs <;> rfl

@[simp] theorem id_storedCopy : (storedCopy t).id = t.id := by
  unfold storedCopy
  split_ifs <;> rfl

@[simp] theorem paneId_storedCopy : (storedCopy t).paneId = t.paneId := by
  unfold storedCopy
  split_ifs <;> rfl

@[simp] theorem terminalId_storedCopy : (storedCopy t).terminalId = t.terminalId := by
  unfold storedCopy
  split_ifs <;> rfl

@[simp] theorem compacting_storedCopy : (storedCopy t).compacting = t.compacting := by
  unfold storedCopy
  split_ifs <;> rfl

variable {t : ServerThread}

theorem threadParams_eq_self : threadParams t = t ↔ t.compacting ≠ some false := by
  constructor
  · intro h hfalse
    have hcompacting := congrArg (·.compacting) h
    simp [threadParams, hfalse] at hcompacting
  · intro h
    have hcompacting : (if t.compacting = some true then some true else none) = t.compacting := by
      rcases hfield : t.compacting with _ | _ | _
      · rfl
      · exact absurd hfield h
      · rfl
    simp only [threadParams, hcompacting]

/-! ### The store in step with the copy -/

/-- The store after the events so far, begun at `db₀`, is in step with the copy, and the requests of the
spared threads are as they were. -/
structure Mirrors (ts : Int) (spared : String → Prop) (db₀ db : Db) (w : HerdWork) : Prop where
  written : ∃ written, Fold.traceM (Db.writeDraft {} ts) db₀ w.events = .ok (db, written)
  threads : ∀ k, db.projection.threads.find? k = (w.next.find? k).map storedCopy
  named : ∀ k t, w.next.find? k = some t → k ≠ ""
  columns : ∀ k t, w.next.find? k = some t → t.compacting ≠ some false
  apart : db.projection.PanesApart
  projects : db.projection.projects = db₀.projection.projects
  runs : ∀ id, db₀.projection.runs.has id = true → db.projection.runs.has id = true
  owners : ∀ id, (db.projection.runtimeRequests.find? id).map (·.body.threadId) =
    (db₀.projection.runtimeRequests.find? id).map (·.body.threadId)
  requests : ∀ id row, db₀.projection.runtimeRequests.find? id = some row → spared row.body.threadId →
    db.projection.runtimeRequests.find? id = some row

namespace Mirrors

variable {ts : Int} {spared : String → Prop} {db₀ db : Db} {w : HerdWork}

variable {raw : EventDraft}

section

variable (h : Mirrors ts spared db₀ db w)
include h

theorem written_push {m : Db} {event : StoredEvent} (hwrite : Db.writeDraft {} ts db raw = .ok (m, event)) :
    ∃ written, Fold.traceM (Db.writeDraft {} ts) db₀ (w.events ++ [raw]) = .ok (m, written) := by
  obtain ⟨written, htrace⟩ := h.written
  exact ⟨written ++ [event], Fold.traceM_append_eq_ok.mpr
    ⟨db, written, [event], htrace, Fold.traceM_cons_eq_ok.mpr ⟨m, event, [], hwrite, rfl, rfl⟩, rfl⟩⟩

theorem claim (threadId : String) : Mirrors ts spared db₀ db (w.claim threadId) :=
  ⟨h.written, h.threads, h.named, h.columns, h.apart, h.projects, h.runs, h.owners, h.requests⟩

theorem paneTaken_eq_false {next : ServerThread}
    (hfree : ∀ k t, w.next.find? k = some t → k ≠ next.id → t.paneId = next.paneId →
      t.terminalId ≠ next.terminalId) : db.projection.paneTaken next = false := by
  refine List.any_eq_false.mpr fun row hrow => ?_
  have hfind := h.threads row.id
  rw [Table.find?_key hrow] at hfind
  obtain ⟨t, ht, hcopy⟩ := Option.map_eq_some_iff.mp hfind.symm
  have hfree' := hfree row.id t ht
  rw [← hcopy] at hfree'
  rw [← hcopy]
  simp only [id_storedCopy, paneId_storedCopy, terminalId_storedCopy] at hfree' ⊢
  simpa using hfree'

end

variable {threadId : String} {current : ServerThread}

section

variable (h : Mirrors ts spared db₀ db w)
include h

theorem rewrite {payload : ServerPayload}
    {f : ServerThread → Except String ServerThread} {g : ServerThread → ServerThread}
    (hitem : payload.type ≠ .turnItemUpdated) (hdelete : payload.type ≠ .threadDeleted)
    (happ : ∀ (p : Projection) (event : StoredEvent), event.payload = payload → p.applyEvent event =
      p.rewriteThread event f)
    (hfind : w.next.find? threadId = some current) (hf : f (storedCopy current) = .ok (storedCopy (g current)))
    (hid : ∀ t, (g t).id = t.id) (hcompacting : (g current).compacting = current.compacting)
    (hfree : ∀ k t, w.next.find? k = some t → k ≠ threadId → t.paneId = (g current).paneId →
      t.terminalId ≠ (g current).terminalId) :
    ∃ db', Mirrors ts spared db₀ db' ((w.push threadId payload).modify threadId g) := by
  have hkey : current.id = threadId := Table.key_of_find? hfind
  have hnextId : (g current).id = threadId := (hid current).trans hkey
  set raw : EventDraft := { threadId := some threadId, payload } with hraw
  set event := db.stamp {} ts raw with hevent
  have hpayload : event.payload = payload := Db.payload_stamp_of_type_ne hitem
  have hcolumns : threadParams (storedCopy (g current)) = storedCopy (g current) := by
    rw [threadParams_eq_self, compacting_storedCopy, hcompacting]
    exact h.columns _ _ hfind
  have happly : db.projection.applyEvent event =
      .ok { db.projection with threads := db.projection.threads.set (storedCopy (g current)) } := by
    rw [happ _ _ hpayload]
    refine Projection.rewriteThread_eq_ok.mpr ⟨threadId, storedCopy current, storedCopy (g current),
      Db.threadId_stamp .., h.named _ _ hfind, ?_, hf, ?_, by rw [hcolumns]⟩
    · rw [h.threads, hfind]
      rfl
    · refine h.paneTaken_eq_false ?_
      simpa only [id_storedCopy, paneId_storedCopy, terminalId_storedCopy, hnextId] using hfree
  obtain ⟨m, hwrite, hm⟩ := Db.writeDraft_of_applyEvent hdelete happly
  have hnext (k : String) : ((w.push threadId payload).modify threadId g).next.find? k =
      if k = threadId then some (g current) else w.next.find? k := by
    rw [HerdWork.find?_modify _ _ _ hid, HerdWork.next_push, hfind]
    rfl
  refine ⟨m, ?_, fun k => ?_, fun k t hk => ?_, fun k t hk => ?_, ?_, ?_, fun id hrun => ?_, ?_, ?_⟩
  · rw [HerdWork.events_modify]
    exact h.written_push hwrite
  · rw [hm, hnext]
    dsimp only
    rw [Table.find?_set, id_storedCopy, hnextId]
    by_cases hk : k = threadId
    · rw [if_pos hk.symm, if_pos hk]
      rfl
    · rw [if_neg (Ne.symm hk), if_neg hk, h.threads]
  · rw [hnext] at hk
    split_ifs at hk with hsame
    · exact hsame ▸ h.named _ _ hfind
    · exact h.named k t hk
  · rw [hnext] at hk
    split_ifs at hk with hsame
    · rw [← Option.some.inj hk, hcompacting]
      exact h.columns _ _ hfind
    · exact h.columns k t hk
  · rw [hm]
    exact h.apart.applyEvent happly
  · rw [hm]
    exact h.projects
  · rw [hm]
    exact h.runs id hrun
  · rw [hm]
    exact h.owners
  · rw [hm]
    exact h.requests

theorem free (hfind : w.next.find? threadId = some current) :
    ∀ k t, w.next.find? k = some t → k ≠ threadId → t.paneId = current.paneId →
      t.terminalId ≠ current.terminalId := by
  intro k t hk hne hpane hterminal
  have hrow (k : String) (t : ServerThread) (hk : w.next.find? k = some t) :
      storedCopy t ∈ db.projection.threads.rows := by
    refine Table.mem_of_find? (k := k) ?_
    rw [h.threads, hk]
    rfl
  have hsame := h.apart _ (hrow k t hk) _ (hrow threadId current hfind) (by simpa using hpane)
    (by simpa using hterminal)
  have hids := congrArg (·.id) hsame
  simp only [id_storedCopy] at hids
  exact hne ((Table.key_of_find? hk).symm.trans (hids.trans (Table.key_of_find? hfind)))

theorem patch {at_ : Int} {threadId : String} {p : ServerThreadPatch}
    {current : ServerThread} (hp : HerdPatch p) (hfind : w.next.find? threadId = some current)
    (hfree : p.terminalId = .absent ∨ ∀ k t, w.next.find? k = some t → k ≠ threadId →
      t.paneId = current.paneId → p.terminalId ≠ .val t.terminalId) :
    ∃ db', Mirrors ts spared db₀ db' (w.patch at_ threadId p) := by
  refine h.rewrite (f := fun thread => thread.patched p at_) (g := (applyPatch · p at_))
    (by simp [Payload.type]) (by simp [Payload.type]) (fun _ _ hpay => by simp only [Projection.applyEvent, hpay])
    hfind ?_ (by intro; rfl) ?_ fun k t hk hne hpane => ?_
  · rw [hp.patched_eq, storedCopy_applyPatch]
  · simp [applyPatch, hp.compacting]
  · rcases hfree with hsame | hfree
    · have hterminal : (applyPatch current p at_).terminalId = current.terminalId := by
        simp [applyPatch, hsame]
      rw [hterminal]
      exact h.free hfind k t hk hne hpane
    · have hother := hfree k t hk hne hpane
      cases hfield : p.terminalId with
      | absent =>
        have hterminal : (applyPatch current p at_).terminalId = current.terminalId := by
          simp [applyPatch, hfield]
        rw [hterminal]
        exact h.free hfind k t hk hne hpane
      | undef => exact absurd hfield hp.terminalId
      | val terminal =>
        rw [hfield] at hother
        have hterminal : (applyPatch current p at_).terminalId = terminal := by
          simp [applyPatch, hfield]
        rw [hterminal]
        exact fun heq => hother (heq ▸ rfl)

theorem shelfActive {at_ : Int} {threadId : String} {current : ServerThread}
    (hfind : w.next.find? threadId = some current) :
    ∃ db', Mirrors ts spared db₀ db' (w.shelfActive at_ threadId) := by
  refine h.rewrite (f := fun thread => .ok (thread.reshelved .active none none at_))
    (g := (·.reshelved .active none none at_)) (by simp [Payload.type]) (by simp [Payload.type])
    (fun _ _ hpay => by simp only [Projection.applyEvent, hpay]) hfind ?_ (by intro; rfl) rfl
    fun k t hk hne hpane => h.free hfind k t hk hne hpane
  rw [storedCopy_reshelved]

end

/-- A draft that ends a run or rewrites a request, of a run and a thread that are there; the thread is not
spared. -/
def Closes (spared : String → Prop) (p : Projection) (raw : EventDraft) : Prop :=
  match raw.payload with
  | .runEnded runId _ _ => p.runs.has runId = true
  | .runtimeRequestUpdated request _ => p.threads.has request.threadId = true ∧ ¬ spared request.threadId ∧
    (p.runtimeRequests.find? request.id).map (·.body.threadId) = some request.threadId
  | .turnItemUpdated item => p.threads.has item.threadId = true
  | _ => False

private structure Closed (spared : String → Prop) (p p' : Projection) : Prop where
  threads : p'.threads = p.threads
  projects : p'.projects = p.projects
  runs : ∀ id, p.runs.has id = true → p'.runs.has id = true
  owners : ∀ id, (p'.runtimeRequests.find? id).map (·.body.threadId) =
    (p.runtimeRequests.find? id).map (·.body.threadId)
  requests : ∀ id row, p.runtimeRequests.find? id = some row → spared row.body.threadId →
    p'.runtimeRequests.find? id = some row

theorem closes_step {raw : EventDraft} (hraw : Closes spared db.projection raw) :
    ∃ m event, Db.writeDraft {} ts db raw = .ok (m, event) ∧ Closed spared db.projection m.projection := by
  unfold Closes at hraw
  cases hpay : raw.payload with
  | runEnded runId status completedAt =>
    simp only [hpay] at hraw
    obtain ⟨run, hrun⟩ := Option.isSome_iff_exists.mp hraw
    have hpayload : (db.stamp {} ts raw).payload = .runEnded runId status completedAt :=
      (Db.payload_stamp_of_type_ne (by simp [hpay, Payload.type])).trans hpay
    have happly : db.projection.applyEvent (db.stamp {} ts raw) = .ok { db.projection with
        runs := db.projection.runs.set { run with status, completedAt := some completedAt } } := by
      simp only [Projection.applyEvent, hpayload]
      exact Projection.updateRun_eq_ok.mpr ⟨run, hrun, rfl⟩
    obtain ⟨m, hwrite, hm⟩ := Db.writeDraft_of_applyEvent (by simp [hpay, Payload.type]) happly
    refine ⟨m, _, hwrite, hm ▸ ⟨rfl, rfl, fun id hid => ?_, fun _ => rfl, fun _ _ h _ => h⟩⟩
    rw [Table.has, Table.find?_set]
    split_ifs
    · rfl
    · exact hid
  | runtimeRequestUpdated request boundText =>
    simp only [hpay] at hraw
    obtain ⟨hthread, hspared, howner⟩ := hraw
    have hpayload : (db.stamp {} ts raw).payload = .runtimeRequestUpdated request boundText :=
      (Db.payload_stamp_of_type_ne (by simp [hpay, Payload.type])).trans hpay
    set row := db.projection.requestRow request boundText (db.stamp {} ts raw).sequence with hrow
    have happly : db.projection.applyEvent (db.stamp {} ts raw) =
        .ok { db.projection with runtimeRequests := db.projection.runtimeRequests.set row } := by
      simp only [Projection.applyEvent, hpayload]
      exact Projection.upsertRequest_eq_ok.mpr ⟨hthread, rfl⟩
    have hid : row.id = request.id := rfl
    obtain ⟨m, hwrite, hm⟩ := Db.writeDraft_of_applyEvent (by simp [hpay, Payload.type]) happly
    refine ⟨m, _, hwrite, hm ▸ ⟨rfl, rfl, fun _ h => h, fun id => ?_, fun id old hold hspare => ?_⟩⟩
    · rw [Table.find?_set]
      split_ifs with hsame
      · rw [← hsame, hid, howner]
        rfl
      · rfl
    · rw [Table.find?_set]
      split_ifs with hsame
      · -- The row under this id belongs to a thread that is not spared.
        rw [← hsame, hid] at hold
        rw [hold] at howner
        exact absurd (Option.some.inj howner ▸ hspare) hspared
      · exact hold
  | turnItemUpdated item =>
    simp only [hpay] at hraw
    obtain ⟨ordinal, hpayload⟩ : ∃ ordinal : Int,
        (db.stamp {} ts raw).payload = .turnItemUpdated (item.at (some ordinal)) := by
      simp only [Db.stamp, Projection.prepare, hpay]
      cases hordinal : item.ordinal with
      | none => exact ⟨_, rfl⟩
      | some ordinal => exact ⟨ordinal, by rw [hpay, ← hordinal]; rfl⟩
    have happly : db.projection.applyEvent (db.stamp {} ts raw) = .ok { db.projection with
        turnItems := db.projection.turnItems.set
          (Projection.itemRow (item.at ordinal) (db.stamp {} ts raw).sequence) } := by
      simp only [Projection.applyEvent, hpayload]
      exact Projection.upsertTurnItem_eq_ok.mpr ⟨hraw, rfl⟩
    obtain ⟨m, hwrite, hm⟩ := Db.writeDraft_of_applyEvent (by simp [hpay, Payload.type]) happly
    exact ⟨m, _, hwrite, hm ▸ ⟨rfl, rfl, fun _ h => h, fun _ => rfl, fun _ _ h _ => h⟩⟩
  | _ => simp only [hpay] at hraw

private theorem Closes.step {p p' : Projection} (h : Closes spared p raw) (hstep : Closed spared p p') :
    Closes spared p' raw := by
  unfold Closes at h ⊢
  cases hpay : raw.payload with
  | runEnded runId _ _ =>
    simp only [hpay] at h ⊢
    exact hstep.runs _ h
  | runtimeRequestUpdated request boundText =>
    simp only [hpay] at h ⊢
    rw [hstep.threads, hstep.owners]
    exact h
  | turnItemUpdated item =>
    simp only [hpay] at h ⊢
    rw [hstep.threads]
    exact h
  | _ => simp only [hpay] at h

theorem closes {drafts : List EventDraft} (h : Mirrors ts spared db₀ db w)
    (hdrafts : ∀ raw ∈ drafts, Closes spared db.projection raw) :
    ∃ db', Mirrors ts spared db₀ db' { w with events := w.events ++ drafts } := by
  induction drafts generalizing db w with
  | nil => exact ⟨db, by simpa using h⟩
  | cons raw drafts ih =>
    obtain ⟨m, event, hwrite, hclosed⟩ := @closes_step ts spared db raw (hdrafts raw (by simp))
    have hm : Mirrors ts spared db₀ m { w with events := w.events ++ [raw] } :=
      ⟨h.written_push hwrite, fun k => by rw [hclosed.threads]; exact h.threads k, h.named, h.columns,
        h.apart.of_subset fun t ht => hclosed.threads ▸ ht, hclosed.projects.trans h.projects,
        fun id hid => hclosed.runs id (h.runs id hid), fun id => (hclosed.owners id).trans (h.owners id),
        fun id row hrow hspare => hclosed.requests id row (h.requests id row hrow hspare) hspare⟩
    obtain ⟨db', hdb'⟩ := ih hm fun raw' hraw' => (hdrafts raw' (by simp [hraw'])).step hclosed
    exact ⟨db', by simpa using hdb'⟩

/-- Every open run and pending request of the projection is there. -/
structure OpensThere (projection : HerdProjection) (db₀ : Db) : Prop where
  runs : ∀ run ∈ projection.openRuns, db₀.projection.runs.has run.id = true
  requests : ∀ request ∈ projection.pendingRequests,
    (db₀.projection.runtimeRequests.find? request.id).map (·.body.threadId) = some request.threadId

theorem archive {projection : HerdProjection} (hopens : OpensThere projection db₀) (h : Mirrors ts spared db₀ db w)
    {at_ : Int} {json : RuntimeRequest → String} {threadId : String} {reason : ArchiveReason}
    (hfind : (w.next.find? threadId).isSome = true) (hspared : ¬ spared threadId) :
    ∃ db', Mirrors ts spared db₀ db' (w.archive at_ projection json threadId reason) := by
  obtain ⟨current, hcurrent⟩ := Option.isSome_iff_exists.mp hfind
  have hthere : db.projection.threads.has threadId = true := by
    rw [Table.has, h.threads, hcurrent]
    rfl
  have hdrafts : ∀ raw ∈ (projection.openRuns.filter (·.threadId = threadId)).map (fun run =>
        { threadId := some threadId, payload := .runEnded run.id .interrupted at_ : EventDraft }) ++
      (projection.pendingRequests.filter (·.threadId = threadId)).flatMap fun request =>
        requestEvents json { request with status := .expired, updatedAt := at_ },
      Closes spared db.projection raw := by
    intro raw hraw
    rw [List.mem_append, List.mem_map, List.mem_flatMap] at hraw
    rcases hraw with ⟨run, hrun, rfl⟩ | ⟨request, hrequest, hraw⟩
    · exact h.runs _ (hopens.runs run (List.mem_of_mem_filter hrun))
    · have hthread : request.threadId = threadId := by simpa using (List.mem_filter.mp hrequest).2
      simp only [requestEvents, List.mem_cons, List.not_mem_nil, or_false] at hraw
      rcases hraw with rfl | rfl
      · refine ⟨hthread ▸ hthere, hthread ▸ hspared, ?_⟩
        exact (h.owners request.id).trans (hopens.requests request (List.mem_of_mem_filter hrequest))
      · exact hthread ▸ hthere
  obtain ⟨m, hm⟩ := h.closes hdrafts
  rw [← List.append_assoc] at hm
  set v : HerdWork := { w with events := w.events ++ _ ++ _ } with hv
  set moved : ServerThread → ServerThread := fun t => { t with
    shelf := .archived, archivedAt := some at_, archiveReason := some reason, updatedAt := at_ } with hmoved
  have hv : v.next.find? threadId = some current := hcurrent
  obtain ⟨m', hm'⟩ : ∃ db', Mirrors ts spared db₀ db' ((v.push threadId (.threadArchived reason at_)).modify
    threadId moved) :=
    hm.rewrite (f := fun thread => .ok (thread.archived reason at_)) (g := moved) (by simp [Payload.type])
      (by simp [Payload.type]) (fun _ _ hpay => by simp only [Projection.applyEvent, hpay]) hv
      (by rw [hmoved, storedCopy_archived]) (by intro; rfl) rfl
      fun k t hk hne hpane => hm.free hv k t hk hne hpane
  have harchived : ((v.push threadId (.threadArchived reason at_)).modify threadId moved).next.find? threadId =
      some (moved current) := by
    rw [HerdWork.find?_modify _ _ _ (by intro; rfl), if_pos rfl, HerdWork.next_push, hv]
    rfl
  unfold HerdWork.archive
  dsimp only
  split_ifs with halive
  · exact hm'.patch (herdPatch_paneAlive false) harchived (.inl rfl)
  · exact ⟨m', hm'⟩

theorem archiveAll {projection : HerdProjection} (hopens : OpensThere projection db₀)
    (h : Mirrors ts spared db₀ db w) {at_ : Int} {json : RuntimeRequest → String} {reason : ArchiveReason}
    {threads : List ServerThread} (hfind : ∀ t ∈ threads, (w.next.find? t.id).isSome = true)
    (hspared : ∀ t ∈ threads, ¬ spared t.id) :
    ∃ db', Mirrors ts spared db₀ db' (w.archiveAll at_ projection json reason threads) := by
  induction threads generalizing db w with
  | nil => exact ⟨db, h⟩
  | cons other threads ih =>
    obtain ⟨m, hm⟩ := @Mirrors.archive ts spared db₀ db (w.claim other.id) projection hopens (h.claim other.id) at_
      json other.id reason (hfind other (by simp)) (hspared other (by simp))
    refine ih hm (fun t ht => ?_) fun t ht => hspared t (by simp [ht])
    rw [HerdWork.find?_archive, HerdWork.next_claim]
    split_ifs with hsame
    · rw [Option.isSome_map, ← hsame]
      exact hfind t (by simp [ht])
    · exact hfind t (by simp [ht])

theorem create (h : Mirrors ts spared db₀ db w) {thread : ServerThread} {ids : Nat} (hid : thread.id ≠ "")
    (hnew : w.next.find? thread.id = none) (hproject : db₀.projection.projects.has thread.projectId = true)
    (hcompacting : thread.compacting ≠ some false) (hshelf : thread.shelf ≠ .archived)
    (hfree : ∀ k t, w.next.find? k = some t → t.paneId = thread.paneId → t.terminalId ≠ thread.terminalId) :
    ∃ db', Mirrors ts spared db₀ db' { w.push thread.id (.threadCreated thread) with
      next := w.next.set thread, ids } := by
  have hstored : storedCopy thread = thread := by
    unfold storedCopy
    rw [if_neg hshelf]
  have hpayload : (db.stamp {} ts { threadId := some thread.id, payload := .threadCreated thread }).payload =
      .threadCreated thread := Db.payload_stamp_of_type_ne (by simp [Payload.type])
  obtain ⟨threads, hinsert⟩ : ∃ threads, db.projection.threads.insert? (threadParams thread) = some threads := by
    have hnone := h.threads thread.id
    rw [hnew] at hnone
    refine ⟨⟨db.projection.threads.rows ++ [threadParams thread], ?_⟩, Table.insert?_eq_some_iff.mpr ⟨?_, rfl⟩⟩
    · rw [List.map_append, List.nodup_append]
      refine ⟨db.projection.threads.nodup, by simp, ?_⟩
      rintro a ha b hb rfl
      obtain ⟨t, ht, htid⟩ := List.mem_map.mp ha
      rw [List.map_singleton, List.mem_singleton] at hb
      exact Table.find?_eq_none_iff.mp hnone t ht (htid.trans hb)
    · intro hmem
      obtain ⟨t, ht, htid⟩ := List.mem_map.mp hmem
      exact Table.find?_eq_none_iff.mp hnone t ht htid
  have hcolumns : threadParams thread = thread := threadParams_eq_self.mpr hcompacting
  have happly : db.projection.applyEvent
      (db.stamp {} ts { threadId := some thread.id, payload := .threadCreated thread }) =
        .ok { db.projection with threads } := by
    simp only [Projection.applyEvent, hpayload]
    refine Projection.insertThread_eq_ok.mpr ⟨threads, hinsert, ?_, by rw [h.projects]; exact hproject, rfl⟩
    exact h.paneTaken_eq_false fun k t hk _ hpane => hfree k t hk hpane
  obtain ⟨m, hwrite, hm⟩ := Db.writeDraft_of_applyEvent (by simp [Payload.type]) happly
  refine ⟨m, h.written_push hwrite, fun k => ?_, fun k t hk => ?_, fun k t hk => ?_, ?_, ?_,
    fun id hrun => ?_, ?_, ?_⟩
  · rw [hm]
    dsimp only
    rw [Table.find?_insert? hinsert, Table.find?_set, hcolumns]
    split_ifs
    · rw [Option.map_some, hstored]
    · exact h.threads k
  · dsimp only at hk
    rw [Table.find?_set] at hk
    split_ifs at hk with hsame
    · exact hsame ▸ hid
    · exact h.named k t hk
  · dsimp only at hk
    rw [Table.find?_set] at hk
    split_ifs at hk with hsame
    · cases hk
      exact hcompacting
    · exact h.columns k t hk
  · rw [hm]
    exact h.apart.applyEvent happly
  · rw [hm]
    exact h.projects
  · rw [hm]
    exact h.runs id hrun
  · rw [hm]
    exact h.owners
  · rw [hm]
    exact h.requests

end Mirrors

/-! ### The loops -/

section

variable {projection : HerdProjection} {ctx : HerdDiffContext} {ts : Int} {spared : String → Prop}
  {db₀ db : Db} {w : HerdWork}

variable {pane : AgentView} {adopted : Bool}

theorem mirrors_updateThread (h : Mirrors ts spared db₀ db w) {threadId : String} {current : ServerThread}
    (hfind : w.next.find? threadId = some current)
    (hfree : adopted = true → ∀ k t, w.next.find? k = some t → k ≠ threadId → t.paneId = current.paneId →
      t.terminalId ≠ pane.terminalId.getD "") :
    ∃ db', Mirrors ts spared db₀ db' (updateThread projection ctx w pane adopted threadId) := by
  unfold updateThread
  simp only [hfind]
  set p := panePatch projection ctx pane adopted current with hp
  have hpatch : ∃ m, Mirrors ts spared db₀ m (if p ≠ {} then w.patch ctx.now threadId p else w) ∧
      ∃ next, (if p ≠ {} then w.patch ctx.now threadId p else w).next.find? threadId = some next := by
    by_cases hempty : p ≠ {}
    · simp only [if_pos hempty]
      obtain ⟨m, hm⟩ := @Mirrors.patch ts spared db₀ db w h ctx.now threadId p current
        (herdPatch_panePatch projection ctx pane adopted current) hfind (by
        cases adopted with
        | false => exact .inl rfl
        | true =>
          refine .inr fun k t hk hne hpane heq => hfree rfl k t hk hne hpane ?_
          rw [hp] at heq
          simpa [panePatch] using heq.symm)
      refine ⟨m, hm, applyPatch current p ctx.now, ?_⟩
      rw [HerdWork.find?_patch, if_pos rfl, hfind]
      rfl
    · simp only [if_neg hempty]
      exact ⟨db, h, current, hfind⟩
  obtain ⟨m, hm, next, hnext⟩ := hpatch
  by_cases hback : (current.shelf = .snoozed ∨ current.shelf = .settled) ∧ current.status = .working ∧
      paneStatus projection ctx pane current ≠ .working
  · simp only [if_pos hback]
    exact hm.shelfActive hnext
  · simp only [if_neg hback]
    exact ⟨m, hm⟩

theorem mirrors_knownPane (h : Mirrors ts spared db₀ db w) {thread : ServerThread}
    (hfind : w.next.find? thread.id = some thread)
    (hfree : adopted = true → ∀ k t, w.next.find? k = some t → k ≠ thread.id → t.paneId = thread.paneId →
      t.terminalId ≠ pane.terminalId.getD "") :
    ∃ db', Mirrors ts spared db₀ db' (knownPane projection ctx w pane adopted thread) := by
  have hclaim := h.claim thread.id
  unfold knownPane
  dsimp only
  split_ifs with harchived hkept halive
  · exact hclaim.patch (herdPatch_paneAlive true) hfind (.inl rfl)
  · exact ⟨db, hclaim⟩
  · obtain ⟨m, hm⟩ := @Mirrors.shelfActive ts spared db₀ db _ hclaim ctx.now thread.id thread hfind
    have hnext (k : String) := (w.claim thread.id).find?_shelfActive ctx.now thread.id k
    have hrevived := hnext thread.id
    rw [if_pos rfl, HerdWork.next_claim, hfind, Option.map_some] at hrevived
    refine mirrors_updateThread hm hrevived fun hadopted k t hk hne hpane => ?_
    rw [hnext, if_neg hne] at hk
    exact hfree hadopted k t hk hne hpane
  · exact mirrors_updateThread hclaim hfind hfree

theorem mirrors_paneStep {done : List AgentView} (hcoherent : projection.Coherent)
    (hopens : Mirrors.OpensThere projection db₀) (hfresh : FreshIds ctx projection.threads (done.length + 1))
    (hnew : pane.paneId ∉ done.map (·.paneId)) (hproject : db₀.projection.projects.has pane.workspaceId = true)
    (hspared : ∀ own, own = (threadOfPane projection pane).1 → ∀ t ∈ otherThreads projection pane own, ¬ spared t.id)
    (hloop : PaneLoop projection ctx done w) (h : Mirrors ts spared db₀ db w) :
    ∃ db', Mirrors ts spared db₀ db' (paneStep projection ctx w pane) := by
  obtain ⟨own, adopted, hown⟩ : ∃ own adopted, threadOfPane projection pane = (own, adopted) := ⟨_, _, rfl⟩
  have hpresent : ∀ t ∈ otherThreads projection pane own, (w.next.find? t.id).isSome = true := by
    intro t ht
    rw [hloop.own t (mem_otherThreads.mp ht).1]
    rfl
  obtain ⟨m, hm⟩ := @Mirrors.archiveAll ts spared db₀ db w projection hopens h ctx.now ctx.requestJson
    .terminalReplaced _ hpresent (hspared own (by rw [hown]))
  have honPane := @PaneLoop.onNewPane projection ctx w done pane own hloop hnew
  unfold paneStep
  simp only [hown]
  cases own with
  | some thread =>
    obtain ⟨hthread, hpane, hterminal⟩ := threadOfPane_some hown
    have hfind := @find?_others projection ctx w done pane (some thread) hcoherent hloop thread hthread
    rw [if_neg fun hother => by simpa using (mem_otherThreads.mp hother).2.2.2,
      fateAfter_of_new (hpane ▸ hnew)] at hfind
    refine mirrors_knownPane hm hfind fun hadopted k t hk hne hsame heq => ?_
    obtain ⟨s, hs, -, hspane, hsterminal⟩ := honPane hk (hsame.trans hpane)
    rcases hterminal with ⟨hkept, -⟩ | ⟨-, -, -, -, hfree⟩
    · exact Bool.false_ne_true (hkept.symm.trans hadopted)
    · exact hfree s hs hspane (hsterminal.trans heq)
  | none =>
    have hlt := hfresh w.ids (Nat.lt_succ_of_le hloop.ids)
    have hfree := @threadOfPane_none projection pane (by rw [hown])
    have hids : (w.archiveAll ctx.now projection ctx.requestJson .terminalReplaced
        (otherThreads projection pane none)).ids = w.ids := HerdWork.ids_archiveAll ..
    have hunused : (w.archiveAll ctx.now projection ctx.requestJson .terminalReplaced
        (otherThreads projection pane none)).next.find? (ctx.newId w.ids) = none := by
      rw [find?_archiveAll]
      have hnone : w.next.find? (ctx.newId w.ids) = none := by
        cases hfind : w.next.find? (ctx.newId w.ids) with
        | none => rfl
        | some t =>
          rcases hloop.only _ t hfind with ⟨s, hs, hsid⟩ | ⟨_, -, -, i, hi, heq, -⟩
          · exact absurd (List.mem_map.mpr ⟨s, hs, hsid⟩) hlt.2.1
          · exact absurd heq.symm (hlt.2.2 i hi)
      rw [hnone, Option.map_none, ite_self]
    have hcreated := @Mirrors.create ts spared db₀ m _ hm (createdThread ctx pane (ctx.newId w.ids)) (w.ids + 1)
      hlt.1 hunused hproject (by simp [createdThread]) (by simp [createdThread]) fun k t hk hpane heq => by
        obtain ⟨s, hs, -, hspane, hsterminal⟩ := honPane hk hpane
        exact hfree s hs hspane (hsterminal.trans heq)
    rw [← hids] at hcreated
    exact hcreated

def OwnThread (projection : HerdProjection) (snap : EngineSnapshot) (id : String) : Prop :=
  ∃ pane ∈ snap.panes, ∃ thread, (threadOfPane projection pane).1 = some thread ∧ thread.id = id

variable {snap : EngineSnapshot}

section

variable (hcoherent : projection.Coherent)
include hcoherent

theorem not_ownThread_of_other (hpanes : (snap.panes.map (·.paneId)).Nodup) (hpane : pane ∈ snap.panes) :
    ∀ own, own = (threadOfPane projection pane).1 →
      ∀ t ∈ otherThreads projection pane own, ¬ OwnThread projection snap t.id := by
  rintro own rfl t ht ⟨other, hother, thread, hthread, hid⟩
  obtain ⟨hmem, -, htpane, hnot⟩ := mem_otherThreads.mp ht
  obtain ⟨hthreadMem, hthreadPane, -⟩ := threadOfPane_some (Prod.ext hthread rfl)
  obtain rfl := hcoherent.eq_of_id hthreadMem hmem hid
  obtain rfl := List.inj_on_of_nodup_map hpanes hother hpane (hthreadPane.symm.trans htpane)
  simp [hthread] at hnot

theorem not_ownThread_of_gone {t : ServerThread} (ht : t ∈ projection.threads)
    (hgone : t.paneId ∉ snap.panes.map (·.paneId)) :
    ¬ OwnThread projection snap t.id := by
  rintro ⟨pane, hpane, thread, hthread, hid⟩
  obtain ⟨hmem, hthreadPane, -⟩ := threadOfPane_some (Prod.ext hthread rfl)
  obtain rfl := hcoherent.eq_of_id hmem ht hid
  exact hgone (List.mem_map.mpr ⟨pane, hpane, hthreadPane.symm⟩)

theorem mirrors_paneLoop (hopens : Mirrors.OpensThere projection db₀)
    (hfresh : FreshIds ctx projection.threads snap.panes.length) (hpanes : (snap.panes.map (·.paneId)).Nodup)
    (hprojects : ∀ pane ∈ snap.panes, db₀.projection.projects.has pane.workspaceId = true)
    (h : Mirrors ts (OwnThread projection snap) db₀ db₀ (startWork projection)) :
    ∃ db, Mirrors ts (OwnThread projection snap) db₀ db (snap.panes.foldl (paneStep projection ctx)
      (startWork projection)) := by
  have hrest : ∀ (rest done : List AgentView) (w : HerdWork) (db : Db), done ++ rest = snap.panes →
      PaneLoop projection ctx done w → Mirrors ts (OwnThread projection snap) db₀ db w →
      ∃ db', Mirrors ts (OwnThread projection snap) db₀ db' (rest.foldl (paneStep projection ctx) w) := by
    intro rest
    induction rest with
    | nil => exact fun done w db _ _ h => ⟨db, h⟩
    | cons pane rest ih =>
      intro done w db hall hloop h
      have hlength : done.length + 1 ≤ snap.panes.length := by
        rw [← hall, List.length_append, List.length_cons]
        omega
      have hfresh' : FreshIds ctx projection.threads (done.length + 1) :=
        fun i hi => hfresh i (hi.trans_le hlength)
      have hnew : pane.paneId ∉ done.map (·.paneId) := by
        rw [← hall, List.map_append, List.map_cons, List.nodup_middle, List.nodup_cons] at hpanes
        exact fun h => hpanes.1 (List.mem_append_left _ h)
      obtain ⟨m, hm⟩ := mirrors_paneStep hcoherent hopens hfresh' hnew (hprojects pane (by simp [← hall]))
        (not_ownThread_of_other hcoherent hpanes (by simp [← hall])) hloop h
      exact ih (done ++ [pane]) _ m (by rw [List.append_assoc]; exact hall)
        (hloop.step hcoherent hfresh' hnew) hm
  exact hrest snap.panes [] _ db₀ rfl (.start hcoherent) h

end

private def Present (projection : HerdProjection) (w : HerdWork) : Prop :=
  ∀ t ∈ projection.threads, (w.next.find? t.id).isSome = true

private theorem Present.archive {threadId : String} {reason : ArchiveReason} (h : Present projection w) :
    Present projection (w.archive ctx.now projection ctx.requestJson threadId reason) := by
  intro t ht
  rw [HerdWork.find?_archive]
  split_ifs with hsame
  · rw [Option.isSome_map, ← hsame]
    exact h t ht
  · exact h t ht

theorem mirrors_threadWork {snap : EngineSnapshot} (hcoherent : projection.Coherent)
    (hopens : Mirrors.OpensThere projection db₀)
    (hfresh : FreshIds ctx projection.threads snap.panes.length)
    (hpanes : (snap.panes.map (·.paneId)).Nodup)
    (hprojects : ∀ pane ∈ snap.panes, db₀.projection.projects.has pane.workspaceId = true)
    (h : Mirrors ts (OwnThread projection snap) db₀ db₀ (startWork projection)) :
    ∃ db, Mirrors ts (OwnThread projection snap) db₀ db (threadWork projection ctx snap).1 := by
  obtain ⟨m, hm⟩ := mirrors_paneLoop hcoherent hopens hfresh hpanes hprojects h
  have hpresent : Present projection (snap.panes.foldl (paneStep projection ctx) (startWork projection)) := by
    intro t ht
    rw [(PaneLoop.all hcoherent hfresh hpanes).own t ht]
    rfl
  have hgone : ∀ t ∈ projection.threads, ∀ {claimed : Prop},
      ¬ (claimed ∨ t.shelf = .archived ∨ t.paneId ∈ snap.panes.map (·.paneId)) →
        ¬ OwnThread projection snap t.id := fun t ht _ hskip =>
    not_ownThread_of_gone hcoherent ht fun hmem => hskip (.inr (.inr hmem))
  have hmissing := List.foldlRecOn
    (motive := fun s : HerdWork × List String => (∃ db, Mirrors ts (OwnThread projection snap) db₀ db s.1) ∧
      Present projection s.1)
    projection.threads (missingStep projection ctx (snap.panes.map (·.paneId)))
    (b := (snap.panes.foldl (paneStep projection ctx) (startWork projection), [])) ⟨⟨m, hm⟩, hpresent⟩
    fun s hs t ht => by
      obtain ⟨w, missing⟩ := s
      obtain ⟨⟨db, hdb⟩, hin⟩ := hs
      unfold missingStep
      dsimp only
      split_ifs with hskip
      · exact ⟨⟨db, hdb⟩, hin⟩
      · exact ⟨hdb.archive hopens (hin t ht) (hgone t ht hskip), Present.archive hin⟩
      · exact ⟨⟨db, hdb⟩, hin⟩
      · exact ⟨hdb.archive hopens (hin t ht) (hgone t ht hskip), Present.archive hin⟩
      · exact ⟨⟨db, hdb⟩, hin⟩
  have hclosed := List.foldlRecOn
    (motive := fun w : HerdWork => (∃ db, Mirrors ts (OwnThread projection snap) db₀ db w) ∧
      Present projection w) projection.threads
    (closedStep ctx (snap.panes.map (·.paneId))) hmissing fun w hw t ht => by
      obtain ⟨⟨db, hdb⟩, hin⟩ := hw
      obtain ⟨current, hcurrent⟩ := Option.isSome_iff_exists.mp (hin t ht)
      unfold closedStep
      split_ifs
      · exact ⟨⟨db, hdb⟩, hin⟩
      · refine ⟨hdb.patch (herdPatch_paneAlive false) hcurrent (.inl rfl), fun s hs => ?_⟩
        rw [HerdWork.find?_patch]
        split_ifs with hsame
        · rw [Option.isSome_map, ← hsame]
          exact hin s hs
        · exact hin s hs
  unfold threadWork
  dsimp only
  generalize projection.threads.foldl (closedStep ctx (snap.panes.map (·.paneId))) _ = w at hclosed ⊢
  have hall := List.foldlRecOn
    (motive := fun v : HerdWork => (∃ db, Mirrors ts (OwnThread projection snap) db₀ db v) ∧
      ∀ t ∈ w.next.rows, (v.next.find? t.id).isSome = true) w.next.rows (snoozeStep ctx)
    (b := w) ⟨hclosed.1, fun t ht => by rw [Table.find?_key ht]; rfl⟩ fun v hv t ht => by
      obtain ⟨⟨db, hdb⟩, hin⟩ := hv
      obtain ⟨current, hcurrent⟩ := Option.isSome_iff_exists.mp (hin t ht)
      unfold snoozeStep
      split_ifs
      · refine ⟨hdb.shelfActive hcurrent, fun s hs => ?_⟩
        rw [HerdWork.find?_shelfActive]
        split_ifs with hsame
        · rw [Option.isSome_map, ← hsame]
          exact hin s hs
        · exact hin s hs
      · exact ⟨⟨db, hdb⟩, hin⟩
  exact hall.1

end

/-! ### The whole diff -/

/-- What the store keeps true of the tables a diff reads and writes. -/
structure Projection.Sound (p : Projection) : Prop where
  named : ∀ t ∈ p.threads.rows, t.id ≠ ""
  columns : ∀ t ∈ p.threads.rows, t.compacting ≠ some false
  shelved : ∀ t ∈ p.threads.rows, t.Shelved
  apart : p.PanesApart
  owned : p.RequestsOwned

variable {p : Projection}

theorem Projection.mem_listThreads : t ∈ p.listThreads ↔ t ∈ p.threads.rows := (List.perm_insertionSort _ _).mem_iff

theorem Projection.nodup_listThreads (p : Projection) : (p.listThreads.map (·.id)).Nodup :=
  (((List.perm_insertionSort _ _).map _).nodup_iff).mpr p.threads.nodup

theorem Projection.mem_listProjects {project : Project} : project ∈ p.listProjects ↔ project ∈ p.projects.rows :=
  (List.perm_insertionSort _ _).mem_iff

theorem Projection.nodup_listProjects (p : Projection) : (p.listProjects.map (·.id)).Nodup :=
  (((List.perm_insertionSort _ _).map _).nodup_iff).mpr p.projects.nodup

theorem Projection.Sound.coherent (h : p.Sound) : p.herd.Coherent where
  ids := p.nodup_listThreads
  panes t ht s hs := h.apart t (mem_listThreads.mp ht) s (mem_listThreads.mp hs)

theorem Projection.find?_listProjects (p : Projection) (id : String) :
    p.listProjects.find? (·.id = id) = p.projects.find? id := by
  cases hfind : p.projects.find? id with
  | none =>
    rw [List.find?_eq_none]
    intro project hproject
    simpa using Table.find?_eq_none_iff.mp hfind project (mem_listProjects.mp hproject)
  | some project =>
    obtain ⟨hmem, rfl⟩ := Table.find?_eq_some_iff.mp hfind
    cases hlist : p.listProjects.find? (·.id = project.id) with
    | none => simpa using List.find?_eq_none.mp hlist project (mem_listProjects.mpr hmem)
    | some other =>
      have hother := mem_listProjects.mp (List.mem_of_find?_eq_some hlist)
      exact congrArg some (p.projects.eq_of_key_eq hother hmem (by simpa using List.find?_some hlist))

theorem storedCopy_of_shelved (h : t.Shelved) : storedCopy t = t := by
  unfold storedCopy
  split_ifs with harchived
  · have hsnoozed : t.snoozedUntil = none := by simpa [harchived] using h.snoozedUntil
    have hpinned : t.pinnedAt = none := by simpa [harchived] using h.pinnedAt
    have horder : t.pinOrder = none := by simpa [harchived] using h.pinOrder
    have hsettled : t.settledAt = none := by simpa [harchived] using h.settledAt
    cases t
    simp_all
  · rfl

section

variable {ctx : HerdDiffContext} {snap : EngineSnapshot} {ts : Int}

theorem has_desiredWorkspaces {pane : AgentView} (h : pane ∈ snap.panes) :
    (desiredWorkspaces ctx snap).has pane.workspaceId = true := by
  have hrest : ∀ (panes : List AgentView) (t : Table DesiredWorkspace.id) (id : String),
      t.has id = true ∨ (∃ pane ∈ panes, pane.workspaceId = id) →
      (panes.foldl (fun (t : Table DesiredWorkspace.id) pane =>
        if t.has pane.workspaceId then t
        else t.set {
          id := pane.workspaceId
          label := orElseText pane.workspaceLabel pane.workspaceId
          number := pane.workspaceNumber }) t).has id = true := by
    intro panes
    induction panes with
    | nil =>
      rintro t id (h | ⟨pane, hpane, -⟩)
      · exact h
      · exact absurd hpane List.not_mem_nil
    | cons first panes ih =>
      intro t id h
      refine ih _ id ?_
      by_cases hrest : ∃ pane ∈ panes, pane.workspaceId = id
      · exact .inr hrest
      left
      dsimp only
      by_cases hfirst : t.has first.workspaceId = true
      · rw [if_pos hfirst]
        rcases h with h | ⟨pane, hpane, rfl⟩
        · exact h
        · rcases List.mem_cons.mp hpane with rfl | hpane
          · exact hfirst
          · exact absurd ⟨pane, hpane, rfl⟩ hrest
      · rw [if_neg hfirst, Table.has, Table.find?_set]
        split_ifs with hid
        · rfl
        · rcases h with h | ⟨pane, hpane, rfl⟩
          · exact h
          · rcases List.mem_cons.mp hpane with rfl | hpane
            · exact absurd rfl hid
            · exact absurd ⟨pane, hpane, rfl⟩ hrest
  exact hrest snap.panes _ _ (.inr ⟨pane, h, rfl⟩)

structure AfterDiff (p : Projection) (ctx : HerdDiffContext) (snap : EngineSnapshot) (p' : Projection) : Prop where
  threads : ∀ k, p'.threads.find? k = ((threadWork p.herd ctx snap).1.next.find? k).map storedCopy
  live : ∀ w ∈ (desiredWorkspaces ctx snap).rows, p'.projects.find? w.id =
    some (liveProject (p.projects.find? w.id) w (threadWork p.herd ctx snap).1.next.rows)
  gone : ∀ existing ∈ p.projects.rows, existing.id ∉ (desiredWorkspaces ctx snap).rows.map (·.id) →
    p'.projects.find? existing.id = some (goneProject ctx (threadWork p.herd ctx snap).1.next.rows existing)
  others : ∀ id, id ∉ (desiredWorkspaces ctx snap).rows.map (·.id) → p.projects.find? id = none →
    p'.projects.find? id = none
  owners : ∀ id, (p'.runtimeRequests.find? id).map (·.body.threadId) =
    (p.runtimeRequests.find? id).map (·.body.threadId)
  requests : ∀ id row, p.runtimeRequests.find? id = some row → OwnThread p.herd snap row.body.threadId →
    p'.runtimeRequests.find? id = some row

/-- What a diff leaves of a sound herd, when its ids are new and each pane is listed once. -/
structure SoundDiff (p : Projection) (ctx : HerdDiffContext) (snap : EngineSnapshot) (p' : Projection) : Prop
    extends AfterDiff p ctx snap p' where
  sound : p.Sound
  panes : (snap.panes.map (·.paneId)).Nodup
  fresh : FreshIds ctx p.listThreads snap.panes.length

variable {p : Projection} {db : Db}

theorem mirrors_start (hsound : p.Sound) (honly : OnlyProjects p db.projection) :
    Mirrors ts (OwnThread p.herd snap) db db (startWork p.herd) := by
  have hnext (k : String) : (startWork p.herd).next.find? k = p.threads.find? k := by
    have hiff (t : ServerThread) : (startWork p.herd).next.find? k = some t ↔ p.threads.find? k = some t := by
      rw [Table.find?_eq_some_iff (t := p.threads), ← Projection.mem_listThreads]
      exact Table.find?_ofList p.nodup_listThreads
    exact Option.ext hiff
  refine ⟨⟨[], rfl⟩, fun k => ?_, fun k t hk => ?_, fun k t hk => ?_, ?_, rfl, fun _ h => h, fun _ => rfl,
    fun _ _ h _ => h⟩
  · rw [honly.threads, hnext]
    cases hfind : p.threads.find? k with
    | none => rfl
    | some t => rw [Option.map_some, storedCopy_of_shelved (hsound.shelved t (Table.mem_of_find? hfind))]
  · rw [hnext] at hk
    exact Table.key_of_find? hk ▸ hsound.named t (Table.mem_of_find? hk)
  · rw [hnext] at hk
    exact hsound.columns t (Table.mem_of_find? hk)
  · exact hsound.apart.of_subset fun t ht => honly.threads ▸ ht

theorem opensThere (honly : OnlyProjects p db.projection) : Mirrors.OpensThere p.herd db where
  runs run hrun := by
    have hmem := List.mem_of_mem_filter ((List.perm_insertionSort _ _).mem_iff.mp hrun)
    rw [honly.runs, Table.has, Table.find?_key hmem]
    rfl
  requests request hrequest := by
    obtain ⟨row, hrow, rfl⟩ := List.mem_map.mp hrequest
    have hmem := List.mem_of_mem_filter ((List.perm_insertionSort _ _).mem_iff.mp hrow)
    rw [honly.runtimeRequests]
    exact congrArg _ (Table.find?_key hmem)

theorem Projection.Sound.append_diff {db : Db} (hsound : db.projection.Sound)
    (hpanes : (snap.panes.map (·.paneId)).Nodup)
    (hfresh : FreshIds ctx db.projection.listThreads snap.panes.length) :
    ∃ db' written, db.append { drafts := (diffHerd db.projection.herd ctx snap).events, ts } =
      .ok (db', written) ∧ AfterDiff db.projection ctx snap db'.projection := by
  set p := db.projection with hp
  set threads := (threadWork p.herd ctx snap).1.next.rows with hthreads
  obtain ⟨m, written, hwrite, honly, hlive, helse⟩ := @traceM_projectEvents p.herd ts threads db
    (desiredWorkspaces ctx snap).rows (desiredWorkspaces ctx snap).nodup fun w _ => p.find?_listProjects w.id
  obtain ⟨n, hn⟩ := @mirrors_threadWork p.herd ctx ts m snap hsound.coherent (opensThere honly) hfresh hpanes
    (fun pane hpane => by
      obtain ⟨w, hw⟩ := Option.isSome_iff_exists.mp (@has_desiredWorkspaces ctx snap pane hpane)
      rw [Table.has, ← Table.key_of_find? hw, hlive w (Table.mem_of_find? hw)]
      rfl) (mirrors_start hsound honly)
  obtain ⟨written', hwrite'⟩ := hn.written
  obtain ⟨db', written'', hwrite'', honly', hgone, helse'⟩ := @traceM_closeEvents p.herd ctx ts threads n
    (desiredWorkspaces ctx snap).rows p.nodup_listProjects fun existing hexisting hnot => by
      rw [hn.projects, helse _ hnot, Table.find?_key (Projection.mem_listProjects.mp hexisting)]
  refine ⟨db', written ++ written' ++ written'', Db.append_of_traceM ?_, ?_⟩
  · refine Fold.traceM_append_eq_ok.mpr ⟨n, written ++ written', written'', ?_, hwrite'', rfl⟩
    exact Fold.traceM_append_eq_ok.mpr ⟨m, written, written', hwrite, hwrite', rfl⟩
  · refine ⟨fun k => ?_, fun w hw => ?_, fun existing hexisting hnot => ?_, fun id hid hnone => ?_,
      fun id => ?_, fun id row hrow howner => ?_⟩
    · rw [honly'.threads]
      exact hn.threads k
    · rw [helse' _ (.inl (List.mem_map.mpr ⟨w, hw, rfl⟩)), hn.projects]
      exact hlive w hw
    · exact hgone existing (Projection.mem_listProjects.mpr hexisting) hnot
    · rw [helse' id (.inr fun hmem => ?_), hn.projects, helse id hid]
      · exact hnone
      · obtain ⟨project, hproject, rfl⟩ := List.mem_map.mp hmem
        exact Table.find?_eq_none_iff.mp hnone project (Projection.mem_listProjects.mp hproject) rfl
    · rw [honly'.runtimeRequests, hn.owners, honly.runtimeRequests]
    · rw [honly'.runtimeRequests]
      exact hn.requests id row (honly.runtimeRequests ▸ hrow) howner

end

end Sightr
