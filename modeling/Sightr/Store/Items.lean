import Sightr.Store.Append

/-!
# What an event does to the items

The four ways `applyEvent` writes the `turn_items` table, said once: a deleted thread takes its items, an
item is inserted or replaced as a whole, and a finished or expired checkpoint writes its item, in place
when it is there and at the thread's next position when it is new.
-/

namespace Sightr

open Keyed (Table)

namespace Projection

/-- The row a checkpoint's item is written as: over the one that is there, or a new one in its
thread. -/
structure WritesCheckpointItem (p : Projection) (threadId : String) (row : TurnItemRow) : Prop where
  type : row.body.body.type = .checkpoint
  known : ∀ old, p.turnItems.find? row.id = some old →
    row.threadId = old.threadId ∧ row.runId = old.runId ∧ row.type = old.type ∧ row.position = old.position
  fresh : p.turnItems.find? row.id = none →
    row.threadId = threadId ∧ row.body.threadId = threadId ∧ row.position = p.nextPosition threadId
  thread : p.turnItems.find? row.id = none → p.threads.has threadId = true

inductive ItemsChange (p p' : Projection) (event : StoredEvent) : Prop
  | same (items : p'.turnItems = p.turnItems)
  | deleted (threadId : String) (type : event.payload.type = .threadDeleted) (thread : event.threadId = some threadId)
      (items : p'.turnItems = p.turnItems.filter (·.threadId ≠ threadId))
  | updated (item : TurnItemDraft) (ordinal : Int) (payload : event.payload = .turnItemUpdated item)
      (placed : item.ordinal = some ordinal) (thread : p.threads.has item.threadId = true)
      (items : p'.turnItems = p.turnItems.set (itemRow (item.at ordinal) event.sequence))
  | checkpoint (threadId : String) (row : TurnItemRow)
      (type : event.payload.type = .checkpointCaptured ∨ event.payload.type = .checkpointExpired)
      (writes : p.WritesCheckpointItem threadId row)
      (items : p'.turnItems = p.turnItems.set row)

theorem upsertCheckpointItem_writes {p : Projection} {row : CheckpointDbRow} (sequence : Nat) (ts : Int)
    (hthread : p.turnItems.find? (checkpointItemId row.runId) = none → p.threads.has row.threadId = true) :
    ∃ itemRow, p.WritesCheckpointItem row.threadId itemRow ∧
      (p.upsertCheckpointItem row sequence ts).turnItems = p.turnItems.set itemRow := by
  unfold upsertCheckpointItem
  dsimp only
  cases hfind : p.turnItems.find? (checkpointItemId row.runId) with
  | none =>
    refine ⟨_, ⟨rfl, fun old hold => ?_, fun _ => ⟨rfl, rfl, rfl⟩, fun _ => hthread hfind⟩, rfl⟩
    cases hfind.symm.trans hold
  | some found =>
    refine ⟨_, ⟨rfl, fun old hold => ?_, fun hnone => ?_, fun hnone => ?_⟩, rfl⟩
    · obtain rfl : found = old := Option.some.inj (hfind.symm.trans hold)
      exact ⟨rfl, rfl, rfl, rfl⟩
    · cases hfind.symm.trans hnone
    · cases hfind.symm.trans hnone

variable {p p' : Projection} {event : StoredEvent}

theorem has_thread_of_captured_end {c : RunCheckpoint} {extra : CapturedExtra} (hrun : p.runs.has c.runId = true)
    (hopen : ∀ row, p.runCheckpoints.find? c.runId = some row → row.endAt.isSome = false)
    (h : p.applyCheckpointCaptured event c .end extra = .ok p') : p.threads.has c.threadId = true := by
  have hnot : ((p.runCheckpoints.find? c.runId).bind (·.endAt)).isSome = false := by
    cases hfind : p.runCheckpoints.find? c.runId with
    | none => rfl
    | some row => exact hopen row hfind
  unfold applyCheckpointCaptured at h
  simp only [hrun, hnot, Bool.not_true, Bool.false_eq_true, if_false] at h
  split_ifs at h with hthread
  simpa using hthread

theorem itemsChange_of_applyEvent (h : p.applyEvent event = .ok p') : ItemsChange p p' event := by
  cases applied_of_applyEvent h with
  | threadDeleted hpay hid => exact .deleted _ (by rw [hpay]; rfl) hid rfl
  | turnItemUpdated hpay hord hthread => exact .updated _ _ hpay hord hthread rfl
  | checkpointCaptured hpay hcaptured =>
    rcases applyCheckpointCaptured_cases hcaptured with
      ⟨hp, -⟩ | ⟨-, -, -, hp⟩ | ⟨rfl, hrun, hopen, row, hrow, hp⟩
    · exact .same (by rw [hp])
    · exact .same (by rw [hp])
    · have hthread : p.threads.has row.threadId = true :=
        hrow ▸ has_thread_of_captured_end hrun hopen hcaptured
      obtain ⟨itemRow, hwrites, hitems⟩ := @upsertCheckpointItem_writes
        ({ p with runCheckpoints := p.runCheckpoints.set row } : Projection) row event.sequence
        event.ts fun _ => hthread
      exact .checkpoint row.threadId itemRow (.inl (by rw [hpay]; rfl))
        ⟨hwrites.type, hwrites.known, hwrites.fresh, hwrites.thread⟩ (hp ▸ hitems)
  | @checkpointExpired runId _ _ hpay hexpired =>
    rw [← hexpired]
    unfold applyCheckpointExpired
    split
    · exact .same rfl
    · rename_i old hold
      split_ifs
      · exact .same rfl
      · dsimp only
        split_ifs with hitem
        · have hthere : p.turnItems.has (checkpointItemId runId) = true :=
            (Bool.and_eq_true_iff.mp hitem).2
          have hrunId : old.runId = runId := Table.key_of_find? hold
          obtain ⟨itemRow, hwrites, hitems⟩ := @upsertCheckpointItem_writes ({ p with
              runCheckpoints := p.runCheckpoints.set { old with objectsExpiredAt := some event.ts } } :
                Projection) { old with objectsExpiredAt := some event.ts } event.sequence event.ts
            fun hnone => by
              have hnone : p.turnItems.find? (checkpointItemId runId) = none := hrunId ▸ hnone
              simp [Table.has, hnone] at hthere
          exact .checkpoint old.threadId itemRow (.inr (by rw [hpay]; rfl))
            ⟨hwrites.type, hwrites.known, hwrites.fresh, hwrites.thread⟩ hitems
        · exact .same rfl
  | _ => exact .same rfl

/-! ### Threads that are there -/

variable {id threadId : String}

theorem has_of_has_set {t : Table (@ThreadOf.id AgentSessionRef)} {thread next : ServerThread}
    (hfind : t.find? id = some thread) (hhas : (t.set next).has threadId = true) (hid : next.id = thread.id) :
    t.has threadId = true := by
  rw [Table.has, Table.find?_set] at hhas
  split_ifs at hhas with hsame
  · rw [← hsame, hid, Table.has, Table.find?_key (Table.mem_of_find? hfind)]
    rfl
  · exact hhas

/-- A thread that is there after an event was there before and is not the one the event deletes, or
the event created it. -/
theorem has_threads_of_applyEvent (h : p.applyEvent event = .ok p') (hhas : p'.threads.has threadId = true) :
    p.threads.has threadId = true ∧ ¬ (event.payload.type = .threadDeleted ∧ event.threadId = some threadId) ∨
      ∃ thread, event.payload = .threadCreated thread ∧ thread.id = threadId := by
  cases applied_of_applyEvent h with
  | @threadCreated thread _ hpay hinsert =>
    by_cases hid : (threadParams thread).id = threadId
    · exact .inr ⟨thread, hpay, hid⟩
    · refine .inl ⟨?_, by simp [hpay, Payload.type]⟩
      rwa [Table.has, Table.find?_insert? hinsert, if_neg hid] at hhas
  | threadUpdated hpay _ _ hfind hnext =>
    simp only [Except.bind_eq_ok, ServerThread.patched, pure, Except.pure] at hnext
    obtain ⟨_, -, _, -, _, -, _, -, _, -, _, -, _, -, hnext⟩ := hnext
    cases hnext
    exact .inl ⟨has_of_has_set hfind hhas rfl, by simp [hpay, Payload.type]⟩
  | threadShelfChanged hpay _ _ hfind | threadArchived hpay _ _ hfind =>
    exact .inl ⟨has_of_has_set hfind hhas rfl, by simp [hpay, Payload.type]⟩
  | threadDeleted hpay hgone =>
    simp only [deleteThread, Table.has, Table.find?_filter] at hhas
    cases hfind : p.threads.find? threadId with
    | none => simp [hfind] at hhas
    | some found =>
      have hid : found.id = threadId := Table.key_of_find? hfind
      rw [hfind] at hhas
      refine .inl ⟨by rw [Table.has, hfind]; rfl, ?_⟩
      rintro ⟨-, hthread⟩
      obtain rfl := Option.some.inj (hgone.symm.trans hthread)
      simp [hid] at hhas
  | _ => exact .inl ⟨hhas, by rintro ⟨hdeleted, -⟩; simp_all [Payload.type]⟩

/-! ### Items that are placed -/

section

variable (p : Projection)

/-- The position `prepare` gives an item: the one it has, or the next one of its thread. -/
def placeOf (item : TurnItemDraft) : Int :=
  ((p.turnItems.find? item.id).map (·.position)).getD (p.nextPosition item.threadId)

def CarriesPlace (event : StoredEvent) : Prop :=
  match event.payload with
  | .turnItemUpdated item => item.ordinal = some (p.placeOf item)
  | _ => True

def KeepsThread (event : StoredEvent) : Prop :=
  match event.payload with
  | .turnItemUpdated item => ∀ row ∈ p.turnItems.find? item.id, row.threadId = item.threadId
  | _ => True

/-- An item's event keeps the thread and the position of the item that is there, and gives a new one
the next position of its thread. -/
def PlacesItem (event : StoredEvent) : Prop := p.CarriesPlace event ∧ p.KeepsThread event

end

instance (p : Projection) (event : StoredEvent) : Decidable (p.CarriesPlace event) := by
  unfold CarriesPlace
  generalize event.payload = payload
  apply @Payload.casesOn _ _ _ _ payload <;> intros <;> infer_instance

instance (p : Projection) (event : StoredEvent) : Decidable (p.KeepsThread event) := by
  unfold KeepsThread
  generalize event.payload = payload
  apply @Payload.casesOn _ _ _ _ payload <;> intros <;> infer_instance

instance (p : Projection) (event : StoredEvent) : Decidable (p.PlacesItem event) :=
  inferInstanceAs (Decidable (_ ∧ _))

/-- A draft that carries no position, or the one its item has, is stamped with the place of its
item. -/
theorem carriesPlace_stamp {db : Db} {options : AppendOptions} {ts : Int} {raw : EventDraft}
    (hordinal : ∀ item ordinal, raw.payload = .turnItemUpdated item → item.ordinal = some ordinal →
      (db.projection.turnItems.find? item.id).map (·.position) = some ordinal) :
    db.projection.CarriesPlace (db.stamp options ts raw) := by
  unfold CarriesPlace Db.stamp prepare
  dsimp only
  cases hpay : raw.payload with
  | turnItemUpdated item =>
    dsimp only
    cases hord : item.ordinal with
    | none => rfl
    | some ordinal =>
      dsimp only
      rw [hpay]
      dsimp only
      rw [placeOf, hordinal item ordinal hpay hord]
      exact hord
  | _ =>
    dsimp only
    rw [hpay]
    trivial

/-- The row goes over the item that is there, in its thread and at its position, or is new at its
thread's next position. -/
structure PlacesRow (p : Projection) (row : TurnItemRow) : Prop where
  known : ∀ old, p.turnItems.find? row.id = some old → row.threadId = old.threadId ∧ row.position = old.position
  fresh : p.turnItems.find? row.id = none →
    row.position = p.nextPosition row.threadId ∧ p.threads.has row.threadId = true

/-- What an event that places its item does to the items. -/
inductive ItemsPlaced (p p' : Projection) (event : StoredEvent) : Prop
  | same (items : p'.turnItems = p.turnItems)
  | deleted (threadId : String) (type : event.payload.type = .threadDeleted) (thread : event.threadId = some threadId)
      (items : p'.turnItems = p.turnItems.filter (·.threadId ≠ threadId))
  | written (row : TurnItemRow) (places : p.PlacesRow row) (items : p'.turnItems = p.turnItems.set row)

/-- An event that places its item writes at most one row, over the one that is there or at the next
position. -/
theorem itemsPlaced_of_applyEvent (hplaces : p.PlacesItem event) (h : p.applyEvent event = .ok p') :
    ItemsPlaced p p' event := by
  rcases itemsChange_of_applyEvent h with
    hitems | ⟨threadId, htype, hthread, hitems⟩ | ⟨item, ordinal, hpay, hord, hhas, hitems⟩ |
    ⟨threadId, row, -, hwrites, hitems⟩
  · exact .same hitems
  · exact .deleted threadId htype hthread hitems
  · obtain ⟨hplace, hkeeps⟩ := hplaces
    simp only [CarriesPlace, KeepsThread, hpay, hord, placeOf, Option.some.injEq] at hplace hkeeps
    refine .written _ ⟨fun old hold => ?_, fun hnone => ?_⟩ hitems
    · have hold : p.turnItems.find? item.id = some old := hold
      rw [hold] at hplace hkeeps
      exact ⟨(hkeeps old rfl).symm, hplace⟩
    · have hnone : p.turnItems.find? item.id = none := hnone
      rw [hnone] at hplace
      exact ⟨hplace, hhas⟩
  · refine .written row ⟨fun old hold => ?_, fun hnone => ?_⟩ hitems
    · obtain ⟨hthread, -, -, hposition⟩ := hwrites.known old hold
      exact ⟨hthread, hposition⟩
    · obtain ⟨hthread, -, hposition⟩ := hwrites.fresh hnone
      exact hthread ▸ ⟨hposition, hwrites.thread hnone⟩

def Holds (p : Projection) (threadId id : String) (position : Int) : Prop :=
  ∃ row, p.turnItems.find? id = some row ∧ row.threadId = threadId ∧ row.position = position

theorem Holds.applyEvent {position : Int} (h : p.Holds threadId id position) (hplaces : p.PlacesItem event)
    (hthere : ¬ (event.payload.type = .threadDeleted ∧ event.threadId = some threadId))
    (happ : p.applyEvent event = .ok p') : p'.Holds threadId id position := by
  obtain ⟨row, hfind, hthread, hposition⟩ := h
  rcases itemsPlaced_of_applyEvent hplaces happ with
    hitems | ⟨gone, htype, hgone, hitems⟩ | ⟨written, hwritten, hitems⟩
  · exact ⟨row, hitems ▸ hfind, hthread, hposition⟩
  · have hother : threadId ≠ gone := by
      rintro rfl
      exact hthere ⟨htype, hgone⟩
    refine ⟨row, ?_, hthread, hposition⟩
    rw [hitems, Table.find?_filter, hfind]
    simp [hthread, hother]
  · rw [Holds, hitems]
    by_cases hid : written.id = id
    · subst hid
      obtain ⟨hsame, hplace⟩ := hwritten.known row hfind
      exact ⟨written, Table.find?_set_self _ _, hsame.trans hthread, hplace.trans hposition⟩
    · exact ⟨row, (Table.find?_set_of_ne _ hid).trans hfind, hthread, hposition⟩

theorem position_lt_nextPosition {row : TurnItemRow} (hrow : row ∈ p.turnItems.rows) :
    row.position < p.nextPosition row.threadId := by
  unfold nextPosition maxPosition
  have hmem : row.position ∈ (p.turnItems.rows.filter (·.threadId = row.threadId)).map (·.position) :=
    List.mem_map_of_mem (List.mem_filter.mpr ⟨hrow, decide_eq_true rfl⟩)
  cases hmax : ((p.turnItems.rows.filter (·.threadId = row.threadId)).map (·.position)).max? with
  | none => simp [List.max?_eq_none_iff.mp hmax] at hmem
  | some m =>
    have hle := (List.max?_eq_some_iff.mp hmax).2 _ hmem
    simp only [Option.getD_some]
    omega

theorem nextPosition_le {bound : Int} (hzero : 0 ≤ bound)
    (h : ∀ row ∈ p.turnItems.rows, row.threadId = threadId → row.position < bound) :
    p.nextPosition threadId ≤ bound := by
  unfold nextPosition maxPosition
  cases hmax : ((p.turnItems.rows.filter (·.threadId = threadId)).map (·.position)).max? with
  | none => simpa using hzero
  | some m =>
    obtain ⟨row, hrow, rfl⟩ := List.mem_map.mp (List.max?_eq_some_iff.mp hmax).1
    obtain ⟨hrow, hthread⟩ := List.mem_filter.mp hrow
    have := h row hrow (of_decide_eq_true hthread)
    simp only [Option.getD_some]
    omega

def ItemsFromZero (p : Projection) : Prop := ∀ row ∈ p.turnItems.rows, 0 ≤ row.position

theorem ItemsFromZero.nextPosition (h : p.ItemsFromZero) (threadId : String) : 0 ≤ p.nextPosition threadId := by
  unfold Projection.nextPosition maxPosition
  cases hmax : ((p.turnItems.rows.filter (·.threadId = threadId)).map (·.position)).max? with
  | none => simp
  | some m =>
    obtain ⟨row, hrow, rfl⟩ := List.mem_map.mp (List.max?_eq_some_iff.mp hmax).1
    have := h row (List.mem_of_mem_filter hrow)
    simp only [Option.getD_some]
    omega

theorem ItemsFromZero.applyEvent (h : p.ItemsFromZero) (hplaces : p.PlacesItem event)
    (happ : p.applyEvent event = .ok p') : p'.ItemsFromZero := by
  rcases itemsPlaced_of_applyEvent hplaces happ with
    hitems | ⟨threadId, -, -, hitems⟩ | ⟨written, hwritten, hitems⟩
  · rw [ItemsFromZero, hitems]
    exact h
  · rw [ItemsFromZero, hitems]
    exact fun row hrow => h row (List.mem_of_mem_filter hrow)
  · rw [ItemsFromZero, hitems]
    intro row hrow
    rcases Table.mem_set.mp hrow with rfl | ⟨hrow, -⟩
    · cases hfind : p.turnItems.find? row.id with
      | none => exact (hwritten.fresh hfind).1 ▸ h.nextPosition row.threadId
      | some old => exact (hwritten.known old hfind).2 ▸ h old (Table.mem_of_find? hfind)
    · exact h row hrow

end Projection

end Sightr
