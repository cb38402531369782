import Sightr.Store.Append

/-!
# Replaying the event log

The store's projection is meant to be a function of its event log: applying the stored events, as
their JSON text reads them back, to empty tables gives the tables the batches left. A live
`thread.updated` applies the patch it was given, while the log keeps its JSON text, which drops a
property that is `undefined`; where such a property cleared a column, the log no longer says so.
-/

namespace Sightr

/-- The stored events, applied in order to empty tables. -/
def Db.replay (db : Db) : Except String Projection := (db.selectEvents 0).foldlM Projection.applyEvent .empty

/-! ### Patches and their JSON text -/

/-- A property that is `undefined` only meets a column that is empty already. -/
def JsField.FindsEmpty {α : Type} (f : JsField α) (old : Option α) : Prop := f = .undef → old = none

instance {α : Type} [DecidableEq α] (f : JsField α) (old : Option α) : Decidable (f.FindsEmpty old) :=
  inferInstanceAs (Decidable (_ → _))

/-- No `undefined` property of the patch clears anything of the thread. -/
@[mk_iff] structure ClearsNothing (thread : ServerThread) (patch : ServerThreadPatch) : Prop where
  unreadDone : patch.unreadDone = .undef → thread.unreadDone = false
  permissionMode : patch.permissionMode.FindsEmpty thread.permissionMode
  model : patch.model.FindsEmpty thread.model
  contextUsage : patch.contextUsage.FindsEmpty thread.contextUsage
  compacting : patch.compacting.FindsEmpty thread.compacting
  paneAlive : patch.paneAlive.FindsEmpty thread.paneAlive

instance (thread : ServerThread) (patch : ServerThreadPatch) : Decidable (ClearsNothing thread patch) :=
  decidable_of_iff _ (clearsNothing_iff thread patch).symm

/-- The event's patch, if it has one, clears nothing of the thread it is about. -/
def Projection.ClearsNothing (p : Projection) (event : StoredEvent) : Prop :=
  match event.threadId.bind p.threads.find?, event.payload with
  | some thread, .threadUpdated patch _ => Sightr.ClearsNothing thread patch
  | _, _ => True

def StoredEvent.patch? (event : StoredEvent) : Option ServerThreadPatch :=
  match event.payload with
  | .threadUpdated patch _ => some patch
  | _ => none

theorem clearsNothing_of_patch (p : Projection) (event : StoredEvent) :
    (∀ thread ∈ event.threadId.bind p.threads.find?, ∀ patch ∈ event.patch?, Sightr.ClearsNothing thread patch) ↔
      p.ClearsNothing event := by
  unfold Projection.ClearsNothing StoredEvent.patch?
  cases event.threadId.bind p.threads.find? with
  | none => simp
  | some thread => cases event.payload <;> simp

instance (p : Projection) (event : StoredEvent) : Decidable (p.ClearsNothing event) :=
  decidable_of_iff _ (clearsNothing_of_patch p event)

theorem over_toJson {α : Type} {f : JsField α} {old : Option α} (h : f.FindsEmpty old) :
    f.toJson.spreadOver old = f.spreadOver old := by
  cases f with
  | undef => simp [h rfl]
  | absent => rfl
  | val a => rfl

theorem unreadDone_toJson {f : JsField Bool} {old : Bool} (h : f = .undef → old = false) :
    (f.toJson.spreadOver (some old)).getD false = (f.spreadOver (some old)).getD false := by
  cases f with
  | undef => simp [h rfl]
  | absent => rfl
  | val a => rfl

theorem overColumn_toJson {α : Type} {column : String} {f : JsField α} {old v : α}
    (h : f.overColumn column old = .ok v) : f.toJson.overColumn column old = .ok v := by
  cases f with
  | undef => cases h
  | absent => exact h
  | val a => exact h

theorem ServerThread.patched_toJson {thread next : ServerThread} {patch : ServerThreadPatch}
    {at_ : Int} (hclear : ClearsNothing thread patch) (h : thread.patched patch at_ = .ok next) :
    ServerThread.patched thread patch.toJson at_ = .ok next := by
  unfold ServerThread.patched at h ⊢
  obtain ⟨title, htitle, h⟩ := Except.bind_eq_ok.mp h
  obtain ⟨titleSource, htitleSource, h⟩ := Except.bind_eq_ok.mp h
  obtain ⟨harness, hharness, h⟩ := Except.bind_eq_ok.mp h
  obtain ⟨status, hstatus, h⟩ := Except.bind_eq_ok.mp h
  obtain ⟨lastActivityAt, hlast, h⟩ := Except.bind_eq_ok.mp h
  obtain ⟨capabilities, hcaps, h⟩ := Except.bind_eq_ok.mp h
  obtain ⟨terminalId, hterminal, h⟩ := Except.bind_eq_ok.mp h
  refine Except.bind_eq_ok.mpr ⟨title, overColumn_toJson htitle, ?_⟩
  refine Except.bind_eq_ok.mpr ⟨titleSource, overColumn_toJson htitleSource, ?_⟩
  refine Except.bind_eq_ok.mpr ⟨harness, overColumn_toJson hharness, ?_⟩
  refine Except.bind_eq_ok.mpr ⟨status, overColumn_toJson hstatus, ?_⟩
  refine Except.bind_eq_ok.mpr ⟨lastActivityAt, overColumn_toJson hlast, ?_⟩
  refine Except.bind_eq_ok.mpr ⟨capabilities, overColumn_toJson hcaps, ?_⟩
  refine Except.bind_eq_ok.mpr ⟨terminalId, overColumn_toJson hterminal, ?_⟩
  rw [← h]
  simp only [ThreadPatchOf.toJson, unreadDone_toJson hclear.unreadDone,
    over_toJson hclear.permissionMode, over_toJson hclear.model, over_toJson hclear.contextUsage,
    over_toJson hclear.compacting, over_toJson hclear.paneAlive, JsField.overRef_toJson]

/-! ### One event -/

variable {event : StoredEvent}

/-- An event that was applied, and clears nothing through `undefined`, is applied the same from its
JSON text. -/
theorem Projection.applyEvent_toJson {p p' : Projection}
    (hclear : p.ClearsNothing event) (h : p.applyEvent event = .ok p') :
    p.applyEvent event.toJson = .ok p' := by
  by_cases hup : ∃ patch at_, event.payload = .threadUpdated patch at_
  · obtain ⟨patch, at_, hpay⟩ := hup
    simp only [Projection.applyEvent, StoredEvent.toJson, hpay, Payload.toJson,
      Projection.rewriteThread_eq_ok] at h ⊢
    obtain ⟨threadId, thread, next, hid, hne, hfind, hnext, hsaved⟩ := h
    have hc : Sightr.ClearsNothing thread patch := by
      simpa only [Projection.ClearsNothing, hid, Option.bind_some, hfind, hpay] using hclear
    exact ⟨threadId, thread, next, hid, hne, hfind, ServerThread.patched_toJson hc hnext, hsaved⟩
  · have hsame : event.toJson = event := by
      obtain ⟨sequence, threadId, commandId, payload, ts⟩ := event
      cases payload with
      | threadUpdated patch at_ => exact absurd ⟨patch, at_, rfl⟩ hup
      | _ => rfl
    rw [hsame]
    exact h

/-! ### Histories -/

/-- The log replays to the projection, and every event has a sequence of its own above 0. -/
structure Db.Replayable (db : Db) : Prop where
  replays : db.events.foldlM Projection.applyEvent Projection.empty = .ok db.projection
  positive : ∀ e ∈ db.events, 0 < e.sequence

theorem Db.Replayable.empty : Db.empty.Replayable := ⟨rfl, by simp [Db.empty]⟩

theorem Db.Replayable.replay {db : Db} (h : db.Replayable) : db.replay = .ok db.projection := by
  have hall : db.selectEvents 0 = db.events := by
    simp only [Db.selectEvents]
    refine List.filter_eq_self.mpr fun e he => ?_
    simp [h.positive e he, EventsAfterOptions.admits]
  rw [Db.replay, hall]
  exact h.replays

theorem Db.applyEvent_eq_ok {db db' : Db} (hdel : event.payload.type ≠ .threadDeleted) :
    db.applyEvent event = .ok db' ↔
      ∃ p, db.projection.applyEvent event = .ok p ∧ db' = { db with projection := p } := by
  unfold Db.applyEvent
  rw [Except.bind_eq_ok]
  refine exists_congr fun p => and_congr_right fun _ => ?_
  split
  · rename_i hpay
    exact absurd (by rw [hpay]; rfl) hdel
  · constructor
    · rintro ⟨⟩
      rfl
    · rintro rfl
      rfl

theorem Db.Replayable.writeDraft {options : AppendOptions} {ts : Int} {db db' : Db}
    {raw : EventDraft} (hdb : db.Replayable)
    (hkeep : event.payload.type ≠ .threadDeleted) (hclear : db.projection.ClearsNothing event)
    (h : Db.writeDraft options ts db raw = .ok (db', event)) : db'.Replayable := by
  obtain ⟨rfl, happ⟩ := Db.writeDraft_eq_ok.mp h
  obtain ⟨p, hp, rfl⟩ := (Db.applyEvent_eq_ok hkeep).mp happ
  refine ⟨?_, ?_⟩
  · refine Fold.foldlM_append_eq_ok.mpr ⟨db.projection, hdb.replays, ?_⟩
    exact Fold.foldlM_cons_eq_ok.mpr ⟨p, Projection.applyEvent_toJson hclear hp, rfl⟩
  · intro e he
    rcases List.mem_append.mp he with he | he
    · exact hdb.positive e he
    · rw [List.mem_singleton.mp he]
      exact Nat.succ_pos db.seq

/-- Every history of accepted batches that deletes no thread, and whose patches clear nothing
through `undefined`, replays to its own projection. -/
theorem Db.replay_eq_projection {batches : List Batch} {db : Db} {written : List (List StoredEvent)}
    (hkeep : ∀ batch ∈ batches, ∀ raw ∈ batch.drafts, raw.payload.type ≠ .threadDeleted)
    (hclear : Db.empty.Meets (fun db event => db.projection.ClearsNothing event) batches)
    (h : Db.empty.appends batches = .ok (db, written)) : db.replay = .ok db.projection := by
  have hkeep' : Db.empty.Meets (fun _ event => event.payload.type ≠ .threadDeleted) batches :=
    Db.meets_of_drafts (C := fun type _ => type ≠ .threadDeleted) hkeep
  have hdb : db.Replayable :=
    Db.appends_invariant (P := fun db _ => db.Replayable) (w := [])
      (fun _ _ _ _ _ _ _ hP hC hstep => hP.writeDraft hC.1 hC.2 hstep)
      (fun _ _ _ hsame hs => ⟨by rw [hsame.events, hsame.projection]; exact hs.replays,
        by rw [hsame.events]; exact hs.positive⟩)
      Db.Replayable.empty (hkeep'.and hclear) h
  exact hdb.replay

/-- A thread with a model, then a patch whose `model` is as given. -/
def modelHistory (model : JsField String) : List Batch :=
  [{ drafts := [createProject (testProject "w1"), createThread { testThread "t1" with model := some "opus" }]
     ts := 1000 },
    { drafts := [{ threadId := some "t1", payload := .threadUpdated { model } 2000 }]
      ts := 2000 }]

/-- A new model is what the replay finds too. -/
theorem Db.replay_eq_projection_model : ∃ db, Db.empty.appends (modelHistory (.val "sonnet")) = .ok db ∧
      db.1.replay = .ok db.1.projection :=
  ⟨_, rfl, @Db.replay_eq_projection (modelHistory (.val "sonnet")) _ _ (by decide) (by decide) rfl⟩

/-- A patch that clears the model through `undefined` is lost in the log: the replay keeps it. -/
theorem Db.replay_diverges_on_undefined : ¬ ∀ (batches : List Batch) (db : Db) (written : List (List StoredEvent)),
      Db.empty.appends batches = .ok (db, written) →
      (∀ batch ∈ batches, ∀ raw ∈ batch.drafts, raw.payload.type ≠ .threadDeleted) →
      db.replay = .ok db.projection := by
  intro h
  have hreplay := h (modelHistory .undef) _ _ rfl (by decide)
  revert hreplay
  decide

end Sightr
