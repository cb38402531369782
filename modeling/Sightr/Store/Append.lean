import Sightr.Store.Projection

/-!
# The event store

`append` of `bridge/threads/store.ts`: a batch of drafts is written and applied in one transaction, or
not at all. Beside the projection the database holds the events themselves, the command receipts, the
journal offsets, the stored patches and the oldest sequence a prune kept.
-/

namespace Sightr

open Keyed (Table)

/-! ### The database -/

structure CommandReceipt where
  commandId : String
  type : String
  /-- The last sequence the command's batch wrote (or the store's last sequence if it wrote none). -/
  sequence : Nat
  result : Option String
  ts : Int
  deriving DecidableEq

structure JournalOffset where
  threadId : String
  path : String
  offset : Nat
  size : Nat
  mtimeMs : Int
  sessionKey : Option String
  deriving DecidableEq

structure CheckpointPatchRow where
  runId : String
  path : String
  patch : Option String
  binary : Bool
  truncated : Bool
  bytes : Nat
  deriving DecidableEq

def CheckpointPatchRow.key (row : CheckpointPatchRow) : String × String := (row.runId, row.path)

structure Db where
  projection : Projection
  events : List StoredEvent
  /-- The last sequence handed out (`sqlite_sequence`). -/
  seq : Nat
  receipts : Table CommandReceipt.commandId
  offsets : Table JournalOffset.threadId
  patches : Table CheckpointPatchRow.key
  minSequence : Nat
  deriving DecidableEq

def Db.empty : Db where
  projection := .empty
  events := []
  seq := 0
  receipts := .empty
  offsets := .empty
  patches := .empty
  minSequence := 0

structure AppendOptions where
  commandId : Option String := none
  /-- A command receipt to write in the same transaction: its type and the JSON of its result. -/
  receipt : Option (String × Option String) := none
  offsets : List JournalOffset := []
  /-- A run's patches, written with its end-phase checkpoint. -/
  checkpointPatches : Option (String × List CheckpointPatchRow) := none
  deriving DecidableEq

/-- The arguments of one `append`, with the time it runs at. -/
structure Batch where
  drafts : List EventDraft
  options : AppendOptions := {}
  ts : Int
  deriving DecidableEq

/-! ### Writing one event -/

/-- Give a new turn item the next ordinal in its thread, so the stored event carries the position the
projection uses. -/
def Projection.prepare (p : Projection) (draft : EventDraft) : EventDraft :=
  match draft.payload with
  | .turnItemUpdated item =>
    match item.ordinal with
    | some _ => draft
    | none =>
      let ordinal := ((p.turnItems.find? item.id).map (·.position)).getD (p.nextPosition item.threadId)
      { draft with payload := .turnItemUpdated (item.at (some ordinal)) }
  | _ => draft

theorem Projection.prepare_of_type_ne {p : Projection} {draft : EventDraft}
    (h : draft.payload.type ≠ .turnItemUpdated) : p.prepare draft = draft := by
  unfold Projection.prepare
  split
  · rename_i hpay
    exact absurd (by rw [hpay]; rfl) h
  · rfl

theorem Projection.type_prepare (p : Projection) (draft : EventDraft) :
    (p.prepare draft).payload.type = draft.payload.type := by
  unfold Projection.prepare
  split
  · rename_i item hpay
    split
    · rfl
    · rw [hpay]
      rfl
  · rfl

theorem Projection.threadId_prepare (p : Projection) (draft : EventDraft) :
    (p.prepare draft).threadId = draft.threadId := by
  unfold Projection.prepare
  split
  · split <;> rfl
  · rfl

namespace Db

variable (db : Db)

def lastSequence : Nat := db.seq

/-- `applyEvent` on the whole database: a deleted thread also takes its older events and, by cascade,
its journal offset and its runs' patches. -/
def applyEvent (db : Db) (event : StoredEvent) : Except String Db := do
  let projection ← db.projection.applyEvent event
  match event.payload with
  | .threadDeleted _ =>
    return { db with
      projection
      events := db.events.filter fun e =>
        !(e.threadId = event.threadId && e.sequence < event.sequence)
      offsets := db.offsets.filter fun o => some o.threadId ≠ event.threadId
      patches := db.patches.filter fun r => projection.runs.has r.runId }
  | _ => return { db with projection }

/-- The event a draft becomes: the next sequence, the batch's command and time. -/
def stamp (options : AppendOptions) (ts : Int) (raw : EventDraft) : StoredEvent :=
  let draft := db.projection.prepare raw
  { sequence := db.seq + 1, threadId := draft.threadId, commandId := options.commandId
    payload := draft.payload, ts }

/-- Insert an event's row: its payload as JSON text, under the next sequence. -/
def insertEvent (event : StoredEvent) : Db := { db with events := db.events ++ [event.toJson], seq := event.sequence }

def writeDraft (options : AppendOptions) (ts : Int) (db : Db) (raw : EventDraft) :
    Except String (Db × StoredEvent) :=
  let event := db.stamp options ts raw
  match (db.insertEvent event).applyEvent event with
  | .error e => .error e
  | .ok db' => .ok (db', event)

def writeReceipt (options : AppendOptions) (ts : Int) (written : List StoredEvent) : Except String Db :=
  match options.receipt, options.commandId with
  | none, _ => .ok db
  | some _, none => .error "a receipt needs a commandId"
  | some (type, result), some commandId =>
    let sequence := (written.getLast?.map (·.sequence)).getD db.lastSequence
    match db.receipts.insert? { commandId, type, sequence, result, ts } with
    | none => .error (Projection.uniqueFailed "command_receipts.command_id")
    | some receipts => .ok { db with receipts }

def setOffset (offset : JournalOffset) : Except String Db :=
  if db.projection.threads.has offset.threadId then
    .ok { db with offsets := db.offsets.set offset }
  else .error Projection.foreignKeyFailed

/-- `INSERT OR IGNORE` of the run's patches, when the run is there. -/
def insertPatches : Option (String × List CheckpointPatchRow) → Db
  | none => db
  | some (runId, rows) =>
    if db.projection.runs.has runId then
      { db with
        patches := rows.foldl (fun t row => (t.insert? { row with runId }).getD t) db.patches }
    else db

/-- One batch, in one transaction: the new database and the events written, or an error and no
change. -/
def append (batch : Batch) : Except String (Db × List StoredEvent) := do
  let (db, written) ← Fold.traceM (writeDraft batch.options batch.ts) db batch.drafts
  let db ← db.writeReceipt batch.options batch.ts written
  let db ← batch.options.offsets.foldlM setOffset db
  return (db.insertPatches batch.options.checkpointPatches, written)

/-- A history: batches that `append` accepted one after another, with the events each one wrote. -/
def appends (batches : List Batch) : Except String (Db × List (List StoredEvent)) := Fold.traceM append db batches

/-! ### Reading events -/

structure EventsAfterOptions where
  threadId : Option String := none
  types : Option (List ThreadEventType) := none
  limit : Option Nat := none

def EventsAfterOptions.admits (o : EventsAfterOptions) (event : StoredEvent) : Bool :=
  (o.threadId.all fun id => event.threadId = some id) &&
    o.types.all fun types => types.contains event.payload.type

/-- Server-form events after `sequence`, oldest first. -/
def selectEvents (sequence : Nat) (o : EventsAfterOptions := {}) : List StoredEvent :=
  let rows := db.events.filter fun e => decide (sequence < e.sequence) && o.admits e
  match o.limit with
  | none => rows
  | some limit => rows.take limit

/-- Client-form events after `sequence`, oldest first. -/
def eventsAfter (sequence : Nat) (o : EventsAfterOptions := {}) : List ThreadEvent :=
  (db.selectEvents sequence o).map (·.toWireEvent)

/-! ### Histories step by step -/

variable {options : AppendOptions} {ts : Int} {db db' : Db} {raw : EventDraft} {event : StoredEvent}

theorem writeDraft_eq_ok : writeDraft options ts db raw = .ok (db', event) ↔
      event = db.stamp options ts raw ∧ (db.insertEvent event).applyEvent event = .ok db' := by
  unfold writeDraft
  constructor
  · intro h
    dsimp only at h
    split at h
    · cases h
    · rename_i happ
      cases h
      exact ⟨rfl, happ⟩
  · rintro ⟨rfl, h⟩
    simp only [h]

theorem type_stamp (db : Db) (options : AppendOptions) (ts : Int) (raw : EventDraft) :
    (db.stamp options ts raw).payload.type = raw.payload.type :=
  db.projection.type_prepare raw

theorem threadId_stamp (db : Db) (options : AppendOptions) (ts : Int) (raw : EventDraft) :
    (db.stamp options ts raw).threadId = raw.threadId :=
  db.projection.threadId_prepare raw

theorem payload_stamp_of_type_ne {db : Db} {options : AppendOptions} {ts : Int} {raw : EventDraft}
    (h : raw.payload.type ≠ .turnItemUpdated) : (db.stamp options ts raw).payload = raw.payload := by
  simp only [stamp, Projection.prepare_of_type_ne h]

theorem applyEvent_projection (h : db.applyEvent event = .ok db') :
    db.projection.applyEvent event = .ok db'.projection ∧ db'.seq = db.seq := by
  obtain ⟨p, hp, h⟩ := Except.bind_eq_ok.mp h
  split at h <;> cases h <;> exact ⟨hp, rfl⟩

theorem writeDraft_projection (h : writeDraft options ts db raw = .ok (db', event)) :
    event = db.stamp options ts raw ∧ db.projection.applyEvent event = .ok db'.projection ∧
      event.sequence = db.seq + 1 ∧ db'.seq = db.seq + 1 := by
  obtain ⟨rfl, happ⟩ := writeDraft_eq_ok.mp h
  obtain ⟨hp, hseq⟩ := applyEvent_projection happ
  exact ⟨rfl, hp, rfl, hseq⟩

theorem writeDraft_of_applyEvent {draft : EventDraft} {p : Projection} (htype : draft.payload.type ≠ .threadDeleted)
    (h : db.projection.applyEvent (db.stamp options ts draft) = .ok p) :
    ∃ db', writeDraft options ts db draft = .ok (db', db.stamp options ts draft) ∧ db'.projection = p := by
  refine ⟨{ db.insertEvent (db.stamp options ts draft) with projection := p }, writeDraft_eq_ok.mpr ⟨rfl, ?_⟩, rfl⟩
  refine Except.bind_eq_ok.mpr ⟨p, h, ?_⟩
  have hne : (db.stamp options ts draft).payload.type ≠ .threadDeleted := by rwa [type_stamp]
  split
  · rename_i hpay
    exact absurd (by rw [hpay]; rfl) hne
  · rfl

/-- What a batch does after its drafts touches neither the projection nor the events. -/
structure SameEvents (db db' : Db) : Prop where
  projection : db'.projection = db.projection
  events : db'.events = db.events
  seq : db'.seq = db.seq
  minSequence : db'.minSequence = db.minSequence

theorem SameEvents.refl (db : Db) : SameEvents db db := ⟨rfl, rfl, rfl, rfl⟩

theorem SameEvents.trans {a b c : Db} (h : SameEvents a b) (h' : SameEvents b c) : SameEvents a c :=
  ⟨h'.projection.trans h.projection, h'.events.trans h.events, h'.seq.trans h.seq,
    h'.minSequence.trans h.minSequence⟩

variable {written : List StoredEvent}

theorem writeReceipt_sameEvents (h : db.writeReceipt options ts written = .ok db') : SameEvents db db' := by
  unfold writeReceipt at h
  split at h
  · cases h
    exact ⟨rfl, rfl, rfl, rfl⟩
  · cases h
  · dsimp only at h
    split at h
    · cases h
    · cases h
      exact ⟨rfl, rfl, rfl, rfl⟩

variable {offset : JournalOffset}

theorem setOffset_sameEvents (h : db.setOffset offset = .ok db') : SameEvents db db' := by
  unfold setOffset at h
  split_ifs at h
  cases h
  exact ⟨rfl, rfl, rfl, rfl⟩

theorem insertPatches_sameEvents (db : Db) (patches : Option (String × List CheckpointPatchRow)) :
    SameEvents db (db.insertPatches patches) := by
  unfold insertPatches
  split
  · exact ⟨rfl, rfl, rfl, rfl⟩
  · split_ifs <;> exact ⟨rfl, rfl, rfl, rfl⟩

variable {batch : Batch}

/-- An accepted batch wrote its drafts; the rest of the transaction left the events alone. -/
theorem append_eq_ok (h : db.append batch = .ok (db', written)) :
    ∃ m, Fold.traceM (writeDraft batch.options batch.ts) db batch.drafts = .ok (m, written) ∧ SameEvents m db' := by
  obtain ⟨⟨m, out⟩, hm, h⟩ := Except.bind_eq_ok.mp h
  obtain ⟨m₁, hm₁, h⟩ := Except.bind_eq_ok.mp h
  obtain ⟨m₂, hm₂, h⟩ := Except.bind_eq_ok.mp h
  cases h
  have hoffsets : SameEvents m₁ m₂ :=
    Fold.foldlM_invariant (P := fun s => SameEvents m₁ s)
      (fun _ _ _ hs hstep => hs.trans (setOffset_sameEvents hstep)) (.refl _) hm₂
  exact ⟨m, hm, (writeReceipt_sameEvents hm₁).trans (hoffsets.trans (insertPatches_sameEvents _ _))⟩

/-! ### Receipts -/

theorem writeDraft_receipts (h : writeDraft options ts db raw = .ok (db', event)) : db'.receipts = db.receipts := by
  obtain ⟨rfl, happ⟩ := writeDraft_eq_ok.mp h
  obtain ⟨p, -, happ⟩ := Except.bind_eq_ok.mp happ
  split at happ <;> cases happ <;> rfl

variable {drafts : List EventDraft}

theorem traceM_receipts (h : Fold.traceM (writeDraft options ts) db drafts = .ok (db', written)) :
    db'.receipts = db.receipts :=
  Fold.traceM_invariant (C := fun _ _ => True) (P := fun m _ => m.receipts = db.receipts) (w := [])
    (fun _ _ _ _ _ hs _ hwrite => (writeDraft_receipts hwrite).trans hs) rfl
    (Fold.along_of_forall fun _ _ _ => trivial) h

theorem setOffset_receipts (h : db.setOffset offset = .ok db') : db'.receipts = db.receipts := by
  unfold setOffset at h
  split_ifs at h
  cases h
  rfl

theorem insertPatches_receipts (db : Db) (patches : Option (String × List CheckpointPatchRow)) :
    (db.insertPatches patches).receipts = db.receipts := by
  unfold insertPatches
  split
  · rfl
  · split_ifs <;> rfl

theorem append_receipts (h : db.append batch = .ok (db', written)) :
    db'.receipts = db.receipts ∨ ∃ r, batch.options.receipt.isSome ∧ batch.options.commandId = some r.commandId ∧
      db.receipts.insert? r = some db'.receipts := by
  obtain ⟨⟨m, out⟩, hm, h⟩ := Except.bind_eq_ok.mp h
  obtain ⟨m₁, hm₁, h⟩ := Except.bind_eq_ok.mp h
  obtain ⟨m₂, hm₂, h⟩ := Except.bind_eq_ok.mp h
  cases h
  have hoffsets : m₂.receipts = m₁.receipts :=
    Fold.foldlM_invariant (P := fun s => s.receipts = m₁.receipts)
      (fun _ _ _ hs hstep => (setOffset_receipts hstep).trans hs) rfl hm₂
  rw [insertPatches_receipts, hoffsets]
  have hdrafts : m.receipts = db.receipts := traceM_receipts hm
  rw [← hdrafts]
  unfold writeReceipt at hm₁
  split at hm₁
  · cases hm₁
    exact .inl rfl
  · cases hm₁
  · rename_i type result commandId hreceipt hid
    dsimp only at hm₁
    split at hm₁
    · cases hm₁
    · rename_i receipts hinsert
      cases hm₁
      exact .inr ⟨_, by rw [hreceipt]; rfl, hid, hinsert⟩

variable {commandId : String}

theorem append_receipt_of_ne (h : db.append batch = .ok (db', written))
    (hne : batch.options.commandId ≠ some commandId) :
    db'.receipts.find? commandId = db.receipts.find? commandId := by
  obtain hsame | ⟨r, -, hid, hinsert⟩ := append_receipts h
  · rw [hsame]
  · rw [Table.find?_insert? hinsert, if_neg]
    rintro rfl
    exact hne hid

variable {receipt : String × Option String}

theorem append_receipt_isSome (h : db.append batch = .ok (db', written))
    (hid : batch.options.commandId = some commandId) (hreceipt : batch.options.receipt = some receipt) :
    (db'.receipts.find? commandId).isSome = true := by
  obtain ⟨⟨m, out⟩, hm, h⟩ := Except.bind_eq_ok.mp h
  obtain ⟨m₁, hm₁, h⟩ := Except.bind_eq_ok.mp h
  obtain ⟨m₂, hm₂, h⟩ := Except.bind_eq_ok.mp h
  cases h
  have hoffsets : m₂.receipts = m₁.receipts :=
    Fold.foldlM_invariant (P := fun s => s.receipts = m₁.receipts)
      (fun _ _ _ hs hstep => (setOffset_receipts hstep).trans hs) rfl hm₂
  rw [insertPatches_receipts, hoffsets]
  simp only [writeReceipt, hid, hreceipt] at hm₁
  split at hm₁
  · cases hm₁
  · rename_i receipts hinsert
    cases hm₁
    change (receipts.find? commandId).isSome = true
    rw [Table.find?_insert? hinsert, if_pos rfl]
    rfl

variable {m : Db}

theorem append_receipted_ok
    (h : Fold.traceM (writeDraft { commandId := some commandId, receipt := some receipt } ts) db drafts = .ok (m,
      written))
    (hnew : db.receipts.find? commandId = none) :
    ∃ db', db.append { drafts, options := { commandId := some commandId, receipt := some receipt }, ts } =
      .ok (db', written) := by
  have hreceipts : m.receipts = db.receipts := traceM_receipts h
  have hinsert (sequence : Nat) : ∃ receipts, m.receipts.insert?
      { commandId, type := receipt.1, sequence, result := receipt.2, ts } = some receipts := by
    rw [hreceipts]
    exact ⟨_, dif_neg fun hmem => by
      obtain ⟨r, hr, hid⟩ := List.mem_map.mp hmem
      exact Table.find?_eq_none_iff.mp hnew r hr hid⟩
  obtain ⟨receipts, hreceipt⟩ := hinsert ((written.getLast?.map (·.sequence)).getD m.lastSequence)
  refine ⟨{ m with receipts }, ?_⟩
  simp only [append, h, writeReceipt, hreceipt, insertPatches, List.foldlM_nil, Except.bind, bind, pure, Except.pure]

theorem append_of_traceM (h : Fold.traceM (writeDraft {} ts) db drafts = .ok (db', written)) :
    db.append { drafts, ts } = .ok (db', written) := by
  simp only [append, h, writeReceipt, insertPatches, List.foldlM_nil, Except.bind, bind, pure, Except.pure]

/-- Every event of the batch meets `C` in the store it finds. -/
def BatchMeets (C : Db → StoredEvent → Prop) (db : Db) (batch : Batch) : Prop :=
  Fold.Along (writeDraft batch.options batch.ts)
    (fun db raw => C db (db.stamp batch.options batch.ts raw)) db batch.drafts

instance {C : Db → StoredEvent → Prop} [∀ db event, Decidable (C db event)] (db : Db)
    (batch : Batch) : Decidable (BatchMeets C db batch) :=
  inferInstanceAs (Decidable (Fold.Along ..))

/-- Every event of a history meets `C` in the store it finds. -/
def Meets (C : Db → StoredEvent → Prop) (db : Db) (batches : List Batch) : Prop :=
  Fold.Along append (BatchMeets C) db batches

instance {C : Db → StoredEvent → Prop} [∀ db event, Decidable (C db event)] (db : Db)
    (batches : List Batch) : Decidable (Meets C db batches) :=
  inferInstanceAs (Decidable (Fold.Along ..))

variable {batches : List Batch}

theorem meets_of_drafts {C : ThreadEventType → Option String → Prop}
    (h : ∀ batch ∈ batches, ∀ raw ∈ batch.drafts, C raw.payload.type raw.threadId) :
    Meets (fun _ event => C event.payload.type event.threadId) db batches :=
  Fold.along_of_forall fun _ batch hbatch => Fold.along_of_forall fun db raw hraw => by
    simpa only [type_stamp, threadId_stamp] using h batch hbatch raw hraw

variable {C : Db → StoredEvent → Prop}

theorem Meets.and {D : Db → StoredEvent → Prop} (hC : Meets C db batches) (hD : Meets D db batches) :
    Meets (fun db event => C db event ∧ D db event) db batches :=
  (Fold.Along.and hC hD).imp fun _ _ h => h.1.and h.2

/-- What an event that meets `C` preserves of the store and of the events written so far, and what
does not look past the events and the projection, every history of such events preserves. -/
theorem appends_invariant {P : Db → List StoredEvent → Prop}
    (hstep : ∀ options ts db sofar raw db' event, P db sofar → C db event →
      writeDraft options ts db raw = .ok (db', event) → P db' (sofar ++ [event]))
    (hsame : ∀ db db' sofar, SameEvents db db' → P db sofar → P db' sofar) {w : List StoredEvent}
    {written : List (List StoredEvent)} (hP : P db w) (hC : db.Meets C batches)
    (h : db.appends batches = .ok (db', written)) : P db' (w ++ written.flatten) := by
  have hall := Fold.traceM_invariant (P := fun s (outs : List (List StoredEvent)) =>
    P s (w ++ outs.flatten)) (w := []) ?_ (by simpa using hP) hC h
  · simpa using hall
  · intro s outs batch s' out hs hbatch hout
    obtain ⟨m, hm, hsm⟩ := append_eq_ok hout
    have hm' := Fold.traceM_invariant (P := P) ?_ hs hbatch hm
    · simpa [List.append_assoc] using hsame m s' _ hsm hm'
    · intro s sofar raw m event hs hraw hstep'
      obtain ⟨rfl, -⟩ := writeDraft_eq_ok.mp hstep'
      exact hstep batch.options batch.ts s sofar raw m _ hs hraw hstep'

/-! ### Sequences -/

/-- The stored events stand in sequence order, none past the last sequence handed out. -/
structure Ordered (db : Db) : Prop where
  sorted : db.events.Pairwise (·.sequence < ·.sequence)
  le_seq : ∀ e ∈ db.events, e.sequence ≤ db.seq

theorem Ordered.empty : empty.Ordered := ⟨List.Pairwise.nil, fun _ he => absurd he List.not_mem_nil⟩

section

variable (h : db.Ordered)
include h

theorem Ordered.of_sublist (hevents : db'.events.Sublist db.events) (hseq : db'.seq = db.seq) : db'.Ordered :=
  ⟨h.sorted.sublist hevents, fun e he => hseq ▸ h.le_seq e (hevents.subset he)⟩

theorem Ordered.eq_of_sequence {e e' : StoredEvent} (he : e ∈ db.events) (he' : e' ∈ db.events)
    (hseq : e.sequence = e'.sequence) : e = e' :=
  List.inj_on_of_nodup_map ((List.pairwise_map.mpr (h.sorted.imp fun hlt => hlt.ne)))
    he he' hseq

theorem Ordered.insertEvent (hevent : db.seq < event.sequence) : (db.insertEvent event).Ordered := by
  refine ⟨?_, fun e he => ?_⟩
  · refine List.pairwise_append.mpr ⟨h.sorted, List.pairwise_singleton .., fun a ha b hb => ?_⟩
    obtain rfl := List.mem_singleton.mp hb
    exact (h.le_seq a ha).trans_lt hevent
  · rcases List.mem_append.mp he with he | he
    · exact (h.le_seq e he).trans hevent.le
    · obtain rfl := List.mem_singleton.mp he
      exact le_rfl

theorem Ordered.writeDraft (hwrite : Db.writeDraft options ts db raw = .ok (db', event)) : db'.Ordered := by
  obtain ⟨rfl, happ⟩ := writeDraft_eq_ok.mp hwrite
  have hinsert : (db.insertEvent (db.stamp options ts raw)).Ordered := h.insertEvent (Nat.lt_succ_self db.seq)
  obtain ⟨p, -, happ⟩ := Except.bind_eq_ok.mp happ
  split at happ <;> cases happ
  · exact hinsert.of_sublist List.filter_sublist rfl
  · exact hinsert.of_sublist (List.Sublist.refl _) rfl

theorem Ordered.append (happ : db.append batch = .ok (db', written)) : db'.Ordered := by
  obtain ⟨m, hm, hsame⟩ := append_eq_ok happ
  refine Ordered.of_sublist ?_ (hsame.events ▸ List.Sublist.refl _) hsame.seq
  exact Fold.traceM_invariant (C := fun _ _ => True) (P := fun (db : Db) _ => db.Ordered) (w := [])
    (fun _ _ _ _ _ hs _ hwrite => hs.writeDraft hwrite) h
    (Fold.along_of_forall fun _ _ _ => trivial) hm

theorem Ordered.appends {written : List (List StoredEvent)}
    (happ : db.appends batches = .ok (db', written)) : db'.Ordered :=
  Fold.traceM_invariant (C := fun _ _ => True) (P := fun (db : Db) _ => db.Ordered) (w := [])
    (fun _ _ _ _ _ hs _ happ => hs.append happ) h
    (Fold.along_of_forall fun _ _ _ => trivial) happ

end

/-- The written events continue the sequence, in order. -/
structure Continues (db : Db) (written : List StoredEvent) (db' : Db) : Prop where
  le : db.seq ≤ db'.seq
  sorted : written.Pairwise (·.sequence < ·.sequence)
  bounds : ∀ e ∈ written, db.seq < e.sequence ∧ e.sequence ≤ db'.seq

theorem Continues.refl (db : Db) : db.Continues [] db :=
  ⟨le_rfl, List.Pairwise.nil, fun _ he => absurd he List.not_mem_nil⟩

theorem Continues.trans {written' : List StoredEvent} (h : db.Continues written m) (h' : m.Continues written' db') :
    db.Continues (written ++ written') db' := by
  refine ⟨h.le.trans h'.le, ?_, fun e he => ?_⟩
  · refine List.pairwise_append.mpr ⟨h.sorted, h'.sorted, fun a ha b hb => ?_⟩
    exact (h.bounds a ha).2.trans_lt (h'.bounds b hb).1
  · rcases List.mem_append.mp he with he | he
    · exact ⟨(h.bounds e he).1, (h.bounds e he).2.trans h'.le⟩
    · exact ⟨h.le.trans_lt (h'.bounds e he).1, (h'.bounds e he).2⟩

theorem append_continues (h : db.append batch = .ok (db', written)) : db.Continues written db' := by
  obtain ⟨m, hm, hsame⟩ := append_eq_ok h
  have hall : db.Continues written m := by
    refine Fold.traceM_invariant (C := fun _ _ => True) (P := fun m sofar => db.Continues sofar m)
      (w := []) ?_ (.refl db) (Fold.along_of_forall fun _ _ _ => trivial) hm
    intro s sofar raw s' event hs _ hwrite
    obtain ⟨-, -, hsequence, hseq⟩ := writeDraft_projection hwrite
    refine hs.trans ⟨by omega, List.pairwise_singleton .., fun e he => ?_⟩
    obtain rfl := List.mem_singleton.mp he
    omega
  exact ⟨hall.le.trans hsame.seq.ge, hall.sorted, fun e he => hsame.seq ▸ hall.bounds e he⟩

end Db

end Sightr
