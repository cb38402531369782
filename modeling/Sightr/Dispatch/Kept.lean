import Sightr.Dispatch.Tasks

/-!
# Accepted messages stay queued

A row that a dispatch accepted is owed until its delivery came back done, it is cancelled or its thread
is deleted. Every writer replaces a whole queue; all but one write back what they read in the same turn.
The one is a dispatch that read the queue before it read the composer: where the queue is as it read
it, it drops nothing either.
-/

namespace Sightr

open Projection

/-! ### Ids -/

/-- The queue a dispatch read before it read the composer. -/
def Task.readRows : Task → List QueuedMessage
  | .dispatch _ _ _ _ (.enqueueReady rows) => rows
  | _ => []

namespace Turn

/-- Every queued row has an id handed out before; the fresh one is not in use. -/
structure Ids (w : World) (running : Option Task) (fresh : Option String) : Prop where
  queued : ∀ id, (w.getQueued id).isSome = true → id ∈ w.issued ∧ fresh ≠ some id
  fresh : ∀ id, fresh = some id → id ∈ w.issued
  ready : ∀ task ∈ running.toList ++ w.tasks, task.readRows = []

variable {t t' : Turn}

theorem readRows_of_adds {task : Task} (h : t.Adds t' task) : task.readRows = [] := by
  cases h with
  | spawn h =>
    cases h with
    | dispatch _ hstage => rcases hstage with rfl | rfl | rfl <;> rfl
    | pass | interrupt => rfl
    | goesOn _ hgoes => cases hgoes <;> rfl
  | send _ _ h => cases h <;> rfl
  | switch h => cases task <;> first | rfl | cases h
  | steer => rfl
  | pressed _ hgoes => cases hgoes <;> rfl

variable {id : String}

section

variable (hready : ∀ task ∈ t.tasks, task.readRows = [])
include hready

theorem getQueued_of_part (h : Part t t') {row' : QueuedMessage} (hrow : t'.world.getQueued id = some row') :
    (∃ row, t.world.getQueued id = some row ∧ row.threadId = row'.threadId) ∨
      t.fresh = some id ∧ t'.fresh = none := by
  have haside {w w' : World} (h : Aside w w') (hrow : w'.getQueued id = some row') :
      w.getQueued id = some row' := h.getQueued id ▸ hrow
  cases h with
  | aside h => exact .inl ⟨row', haside h hrow, rfl⟩
  | later | issue | take | ended | spawn | send | sendBack | beginSwitch | endSwitch | press
  | waitFired => exact .inl ⟨row', hrow, rfl⟩
  | @rowDone task answer threadId rowId path ref mark result w rows before after change _ _ _ _ _ hw
      hrows _ hafter hnotices =>
    refine .inl ?_
    have hback {row : QueuedMessage} (hrow : w.getQueued id = some row) : t.world.getQueued id = some row := by
      rwa [hw.getQueued] at hrow
    cases happ : w.append (before ++ queueEvent threadId rows change :: after) with
    | none => exact ⟨row', hback (by simpa [happ] using hrow), rfl⟩
    | some w' =>
      have hrewrote := World.rewrote_append hnotices (fun d hd => (hafter d hd).1) happ
      obtain ⟨row, hold, hthread⟩ := hrewrote.owner
        (fun r hr => ⟨r, ((hrows.1 r).mp hr).1, rfl⟩) (by simpa [happ] using hrow)
      exact ⟨row, hback hold, hthread⟩
  | rewrote h hrows => exact .inl (h.owner (fun r' hr' => hrows.old r' hr') hrow)
  | @added threadId base rows row w w' extra _ hfresh hbase hrows _ h hw hextra =>
    by_cases hid : row.id = id
    · exact .inr ⟨hid ▸ hfresh, rfl⟩
    · refine .inl ?_
      have hold : ∀ r ∈ base, ∃ s ∈ t.world.listQueued threadId, s.id = r.id := by
        intro r hr
        rcases hbase with rfl | ⟨ctx, thread, text, attachments, -, hresumes⟩
        · exact ⟨r, hr, rfl⟩
        · have hnil : base = [] := hready _ (mem_tasks_of_running hresumes.1)
          rw [hnil] at hr
          exact absurd hr List.not_mem_nil
      have hrow' : w.getQueued id = some row' := haside hw hrow
      by_cases hin : ∃ r ∈ rows, r.id = id
      · obtain ⟨r, hr, rfl⟩ := hin
        obtain ⟨position, hkept⟩ := h.queue.kept r hr
        obtain ⟨s, hs, hsid⟩ := hold r (((hrows r).mp hr).resolve_left fun heq => hid (heq ▸ rfl))
        obtain ⟨hq, hthread⟩ := mem_listQueued.mp hs
        rw [World.getQueued, hkept] at hrow'
        cases hrow'
        exact ⟨s, hsid ▸ hq, hthread⟩
      · push Not at hin
        rw [World.getQueued, h.queue.rest id hin] at hrow'
        exact ⟨row', (Option.filter_eq_some_iff.mp hrow').1, rfl⟩
  | cancelled hrows h hw =>
    exact .inl (h.owner (fun r hr => ⟨r, ((hrows.1 r).mp hr).1, rfl⟩) (haside hw hrow))
  | noted h =>
    refine .inl ⟨row', ?_, rfl⟩
    rwa [World.getQueued, Projection.getQueued, h.queuedMessages] at hrow
  | outside _ hqueue _ h =>
    obtain ⟨events, happ, -⟩ := World.heard_append h
    rcases Db.append_queueKept hqueue happ id with hsame | ⟨hnone, -⟩
    · exact .inl ⟨row', hsame.symm.trans hrow, rfl⟩
    · exact absurd (hnone.symm.trans hrow) (by simp)

theorem isSome_getQueued_of_part (h : Part t t') (hid : (t'.world.getQueued id).isSome = true) :
    (t.world.getQueued id).isSome = true ∨ t.fresh = some id ∧ t'.fresh = none := by
  obtain ⟨row', hrow'⟩ := Option.isSome_iff_exists.mp hid
  refine (getQueued_of_part hready h hrow').imp_left ?_
  rintro ⟨row, hrow, -⟩
  simp [hrow]

end

theorem issued_of_part (h : Part t t') : t'.world.issued = t.world.issued ∧ (t'.fresh = t.fresh ∨ t'.fresh = none) ∨
      ∃ id, id ∉ t.world.issued ∧ t'.world = t.world.issue id ∧ t'.fresh = some id := by
  cases h with
  | aside h => exact .inl ⟨h.issued, .inl rfl⟩
  | later | take | spawn | send | sendBack | beginSwitch | endSwitch | press | waitFired =>
    exact .inl ⟨rfl, .inl rfl⟩
  | ended => exact .inl ⟨rfl, .inr rfl⟩
  | issue hnew => exact .inr ⟨_, hnew, rfl, rfl⟩
  | @rowDone task answer threadId rowId path ref mark result w rows before after change _ _ _ _ _ haside
      _ _ hafter hnotices =>
    refine .inl ⟨?_, .inl rfl⟩
    cases happ : w.append (before ++ queueEvent threadId rows change :: after) with
    | none => exact haside.issued
    | some w' =>
      have hrewrote := World.rewrote_append hnotices (fun d hd => (hafter d hd).1) happ
      have hissued : w'.issued = t.world.issued := hrewrote.issued.trans haside.issued
      exact hissued
  | rewrote h => exact .inl ⟨h.issued, .inl rfl⟩
  | added _ _ _ _ _ h haside => exact .inl ⟨haside.issued.trans h.issued, .inr rfl⟩
  | cancelled _ h haside => exact .inl ⟨haside.issued.trans h.issued, .inl rfl⟩
  | noted h => exact .inl ⟨h.issued, .inl rfl⟩
  | outside _ _ _ h =>
    obtain ⟨events, -, hheard⟩ := World.heard_append h
    exact .inl ⟨hheard.issued, .inl rfl⟩

theorem ids_of_part (h : Ids t.world t.running t.fresh) (hpart : Part t t') : Ids t'.world t'.running t'.fresh := by
  have hready : ∀ task ∈ t'.tasks, task.readRows = [] :=
    forall_tasks hpart (fun task hcall => by cases task <;> first | rfl | cases hcall)
      (fun task hadds => readRows_of_adds hadds) h.ready
  refine ⟨fun id hid => ?_, fun id hid => ?_, hready⟩
  · have hqueued := isSome_getQueued_of_part h.ready hpart hid
    rcases issued_of_part hpart with ⟨hissued, hfresh⟩ | ⟨newId, hnew, hworld, hfresh⟩
    · rw [hissued]
      rcases hqueued with hold | ⟨hadded, hnone⟩
      · refine ⟨(h.queued id hold).1, ?_⟩
        rcases hfresh with hfresh | hfresh
        · exact hfresh ▸ (h.queued id hold).2
        · simp [hfresh]
      · exact ⟨h.fresh id hadded, by simp [hnone]⟩
    · have hold : (t.world.getQueued id).isSome = true := by
        rw [hworld] at hid
        exact hid
      have hissued := (h.queued id hold).1
      refine ⟨?_, ?_⟩
      · rw [hworld]
        exact List.mem_cons_of_mem _ hissued
      · rw [hfresh]
        rintro ⟨⟩
        exact hnew hissued
  · rcases issued_of_part hpart with ⟨hissued, hfresh | hfresh⟩ | ⟨newId, hnew, hworld, hfresh⟩
    · rw [hissued]
      exact h.fresh id (hfresh ▸ hid)
    · rw [hfresh] at hid
      cases hid
    · rw [hfresh] at hid
      cases hid
      rw [hworld]
      exact List.mem_cons_self

theorem ids_of_booted {db : Db} {now : Int} {w : World} (h : World.Booted db now w) : Ids w none none := by
  refine ⟨fun id hid => ⟨?_, by simp⟩, by simp, fun task htask => ?_⟩
  · rw [h.issued]
    obtain ⟨row, hrow⟩ := Option.isSome_iff_exists.mp (h.ids id hid)
    have hkey : row.id = id := Keyed.Table.key_of_find? hrow
    exact List.mem_map.mpr ⟨row, Keyed.Table.mem_of_find? hrow, hkey⟩
  · obtain ⟨id, rfl⟩ := h.tasks task (by simpa using htask)
    rfl

end Turn

/-! ### What is owed -/

/-- The rows that a dispatch committed and answered ok, with their threads, that are not done with: no
delivery of theirs came back done, they were not cancelled and their thread is not deleted. -/
def owed : List Obs → List (String × String)
  | [] => []
  | .accepted threadId rowId :: log => (threadId, rowId) :: owed log
  | .cancelled rowId :: log => (owed log).filter (·.2 ≠ rowId)
  | .reported _ path result _ :: log =>
    if result.isDone then (owed log).filter (some ·.2 ≠ path.row?) else owed log
  | .committed event :: log =>
    if event.payload.type = .threadDeleted then (owed log).filter (some ·.1 ≠ event.threadId)
    else owed log
  | _ :: log => owed log

theorem owed_answered (answers : List (String × Option EffectOutcome)) (log : List Obs) :
    owed (answers.map (fun a => .answered a.1 a.2) ++ log) = owed log := by
  induction answers with
  | nil => rfl
  | cons answer answers ih => exact ih

theorem mem_owed_committed {events : List StoredEvent} {log : List Obs} {entry : String × String}
    (h : entry ∈ owed (events.map .committed ++ log)) : entry ∈ owed log ∧
      ∀ event ∈ events, event.payload.type = .threadDeleted → event.threadId ≠ some entry.1 := by
  induction events with
  | nil => exact ⟨h, by simp⟩
  | cons event events ih =>
    simp only [List.map_cons, List.cons_append, owed] at h
    by_cases htype : event.payload.type = .threadDeleted
    · rw [if_pos htype, List.mem_filter] at h
      obtain ⟨howed, hrest⟩ := ih h.1
      refine ⟨howed, fun e he => ?_⟩
      rcases List.mem_cons.mp he with rfl | he
      · intro _ heq
        simp [heq] at h
      · exact hrest e he
    · rw [if_neg htype] at h
      obtain ⟨howed, hrest⟩ := ih h
      refine ⟨howed, fun e he => ?_⟩
      rcases List.mem_cons.mp he with rfl | he
      · exact fun h => absurd h htype
      · exact hrest e he

namespace World

def KeepsOwed (w : World) : Prop :=
  ∀ entry ∈ owed w.log, ∃ row, w.getQueued entry.2 = some row ∧ row.threadId = entry.1

variable {w w' : World} {threadId : String} {rows : List QueuedMessage} {row : QueuedMessage}

theorem Rewrote.getQueued (h : Rewrote w threadId rows w') (hrow : w.getQueued row.id = some row)
    (hkept : row.threadId = threadId → ∃ r ∈ rows, r.id = row.id)
    (hold : ∀ r ∈ rows, r.id = row.id → row.threadId = threadId) :
    ∃ row', w'.getQueued row.id = some row' ∧ row'.threadId = row.threadId := by
  by_cases hthread : row.threadId = threadId
  · obtain ⟨r, hr, hid⟩ := hkept hthread
    obtain ⟨position, hq⟩ := h.queue.kept r hr
    exact ⟨_, hid ▸ hq, hthread.symm⟩
  · have hnot : ∀ r ∈ rows, r.id ≠ row.id := fun r hr hid => hthread (hold r hr hid)
    refine ⟨row, ?_, rfl⟩
    rw [World.getQueued, h.queue.rest row.id hnot]
    rw [World.getQueued] at hrow
    simp [hrow, hthread]

theorem threadId_of_mem_listQueued {r : QueuedMessage} (hr : r ∈ w.listQueued threadId)
    (hrow : w.getQueued row.id = some row) (hid : r.id = row.id) :
    row.threadId = threadId := by
  obtain ⟨hq, hthread⟩ := mem_listQueued.mp hr
  rw [hid] at hq
  cases hq.symm.trans hrow
  exact hthread

theorem Aside.owed (h : Turn.Aside w w') : owed w'.log = owed w.log := by
  obtain ⟨answers, hlog⟩ := h.log
  rw [hlog, owed_answered]

variable {entry : String × String}

theorem Echoes.mem_owed (h : Echoes w w') (hentry : entry ∈ owed w'.log) : entry ∈ owed w.log := by
  obtain ⟨events, hlog, -⟩ := h.log
  rw [hlog] at hentry
  exact (mem_owed_committed hentry).1

theorem KeepsOwed.rewrote (h : w.KeepsOwed) (hrewrote : Rewrote w threadId rows w')
    (hold : ∀ r ∈ rows, ∃ r' ∈ w.listQueued threadId, r'.id = r.id) (hentry : entry ∈ owed w'.log)
    (hkept : ∀ r ∈ w.listQueued threadId, r.id = entry.2 → ∃ r' ∈ rows, r'.id = r.id) :
    ∃ row, w'.getQueued entry.2 = some row ∧ row.threadId = entry.1 := by
  obtain ⟨row, hrow, hthread⟩ := h entry (hrewrote.toEchoes.mem_owed hentry)
  have hid : row.id = entry.2 := Keyed.Table.key_of_find? hrow
  rw [← hid] at hrow
  obtain ⟨row', hrow', hthread'⟩ := hrewrote.getQueued hrow
    (fun hsame => hkept row (mem_listQueued.mpr ⟨hrow, hsame⟩) hid)
    (fun r hr hrid => by
      obtain ⟨r', hr', hrid'⟩ := hold r hr
      exact threadId_of_mem_listQueued hr' hrow (hrid'.trans hrid))
  exact ⟨row', hid ▸ hrow', hthread'.trans hthread⟩

end World

namespace Turn

open World

end Turn

namespace World

end World

end Sightr
