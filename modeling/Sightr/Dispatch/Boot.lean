import Sightr.Dispatch.Parts

/-!
# Runs of the dispatcher

A run begins with the start of the bridge, which holds every queue it finds, and goes on with any
actions. What every part of a turn preserves holds along every run.
-/

namespace Sightr

open Projection

namespace World

/-! ### The start -/

/-- The dispatcher just after its start: nothing is sent, nothing waits. -/
structure Booted (db : Db) (now : Int) (w : World) : Prop where
  now : w.now = now
  drainer : w.drainer = .empty
  interrupting : w.interrupting = fun _ => none
  issued : w.issued = db.projection.queuedMessages.rows.map (·.id)
  tasks : ∀ task ∈ w.tasks, ∃ id, task = .schedule id
  log : ∀ obs ∈ w.log, ∃ event, obs = .committed event ∧ isOwn event.payload = true
  threads : w.db.projection.threads = db.projection.threads
  requests : w.db.projection.runtimeRequests = db.projection.runtimeRequests
  owned : db.projection.QueueOwned → w.db.projection.QueueOwned
  ids : ∀ id, (w.getQueued id).isSome = true → (db.projection.getQueued id).isSome = true

/-- Rows under ids of the thread's queue become its queue: what is queued then was queued, in the same
thread. -/
theorem Rewrote.owner {w w' : World} {threadId : String} {rows : List QueuedMessage}
    (h : Rewrote w threadId rows w') (hold : ∀ r' ∈ rows, ∃ r ∈ w.listQueued threadId, r.id = r'.id)
    {id : String} {row' : QueuedMessage} (hrow : w'.getQueued id = some row') :
    ∃ row, w.getQueued id = some row ∧ row.threadId = row'.threadId := by
  by_cases hin : ∃ r ∈ rows, r.id = id
  · obtain ⟨r, hr, rfl⟩ := hin
    obtain ⟨position, hkept⟩ := h.queue.kept r hr
    obtain ⟨s, hs, hid⟩ := hold r hr
    obtain ⟨hq, hthread⟩ := mem_listQueued.mp hs
    rw [World.getQueued, hkept] at hrow
    cases hrow
    exact ⟨s, hid ▸ hq, hthread⟩
  · push Not at hin
    rw [World.getQueued, h.queue.rest id hin] at hrow
    exact ⟨row', (Option.filter_eq_some_iff.mp hrow).1, rfl⟩

private theorem Booted.holdRestart {db : Db} {now : Int} {w : World} (h : Booted db now w)
    (threadId : String) : Booted db now (w.holdRestart threadId) := by
  unfold World.holdRestart
  dsimp only
  split
  · exact h
  · split
    · exact h
    · rename_i w' happ
      have hrewrote := rewrote_append_cons (by simp) happ
      obtain ⟨ids, hids⟩ := hrewrote.tasks
      obtain ⟨events, hevents, hown⟩ := hrewrote.log
      refine ⟨hrewrote.now.trans h.now, hrewrote.drainer.trans h.drainer,
        hrewrote.interrupting.trans h.interrupting, hrewrote.issued.trans h.issued, ?_, ?_,
        hrewrote.threads.trans h.threads, hrewrote.requests.trans h.requests,
        fun howned => hrewrote.owned (h.owned howned), fun id hid => h.ids id ?_⟩
      · intro task htask
        rw [World.spawn, hids, List.append_assoc] at htask
        rcases List.mem_append.mp htask with htask | htask
        · exact h.tasks task htask
        · rcases List.mem_append.mp htask with htask | htask
          · obtain ⟨id, -, rfl⟩ := List.mem_map.mp htask
            exact ⟨id, rfl⟩
          · obtain rfl := List.mem_singleton.mp htask
            exact ⟨threadId, rfl⟩
      · intro obs hobs
        rw [World.spawn, hevents] at hobs
        rcases List.mem_append.mp hobs with hobs | hobs
        · obtain ⟨event, hevent, rfl⟩ := List.mem_map.mp hobs
          exact ⟨event, rfl, hown event hevent⟩
        · exact h.log obs hobs
      · obtain ⟨row', hrow'⟩ := Option.isSome_iff_exists.mp hid
        obtain ⟨row, hrow, -⟩ := hrewrote.owner (fun r' hr' => by
          obtain ⟨r, hr, rfl⟩ := List.mem_map.mp hr'
          exact ⟨r, hr, by split_ifs <;> rfl⟩) hrow'
        simp [hrow]

theorem booted_boot (db : Db) (now : Int) : Booted db now (boot db now) := by
  unfold boot
  have hfold (ids : List String) (w : World) (h : Booted db now w) :
      Booted db now (ids.foldl World.holdRestart w) := by
    induction ids generalizing w with
    | nil => exact h
    | cons id ids ih => exact ih _ (h.holdRestart id)
  exact hfold _ _ ⟨rfl, rfl, rfl, rfl, by simp, by simp, rfl, rfl, id, fun _ hid => hid⟩

/-! ### Runs -/

/-- A store that batches built is found by a bridge start, and a run of steps that meet the condition
leads from there to this state. -/
def Reaches (C : World → Action → Prop) (w : World) : Prop :=
  ∃ batches db written now, Db.empty.appends batches = .ok (db, written) ∧ Runs.Run step C (boot db now) w

def Always (_ : World) (_ : Action) : Prop := True

instance (w : World) (a : Action) : Decidable (Always w a) := inferInstanceAs (Decidable True)

end World

/-- Whoever answers a command of a run that the tests describe. -/
def testContext (commandId : String) : EffectContext where
  commandId := commandId
  receipt := ("message.dispatch", none)

variable (status : ThreadStatus)

/-- One thread that takes queued messages and can be interrupted. -/
def dispatchThread : ServerThread :=
  { testThread "t1" with
    status
    capabilities := { noCapabilities with
      hasJournal := true, canQueueDrain := true, canInterrupt := true
      interruptKeys := some ["escape"] } }

def dispatchHistory : List Batch :=
  [{ drafts := [createProject (testProject "w1"), createThread (dispatchThread status)], ts := 1000 }]

def dispatchDb : Db :=
  match Db.empty.appends (dispatchHistory status) with
  | .ok (db, _) => db
  | .error _ => .empty

def statusBatch (at_ : Int) : Action :=
  .environment [{ threadId := some "t1"
                  payload := .threadUpdated { status := .val status } at_ }] {}

namespace World

theorem appends_dispatchDb (status : ThreadStatus) : ∃ written,
    Db.empty.appends (dispatchHistory status) = .ok (dispatchDb status, written) := by
  cases status <;> exact ⟨_, rfl⟩

theorem reaches_of_exec {C : World → Action → Prop} [∀ w a, Decidable (C w a)]
    (status : ThreadStatus) (actions : List Action) {p : World → Bool}
    (h : (Runs.exec step C (boot (dispatchDb status) 0) actions).any p = true) :
    ∃ w, Reaches C w ∧ p w = true := by
  obtain ⟨w, hrun, hp⟩ := Runs.exists_run_of_exec h
  obtain ⟨written, happ⟩ := appends_dispatchDb status
  exact ⟨w, ⟨_, _, written, 0, happ, hrun⟩, hp⟩

end World

theorem Db.queueOwned_of_appends {batches : List Batch} {db : Db}
    {written : List (List StoredEvent)} (h : Db.empty.appends batches = .ok (db, written)) :
    db.projection.QueueOwned := by
  refine Db.appends_invariant (C := fun _ _ => True) (P := fun db _ => db.projection.QueueOwned)
    (w := []) (fun options ts db sofar raw db' event hP _ hwrite => ?_) (fun db db' _ hsame hP => ?_)
    QueueOwned.empty (Fold.along_of_forall fun _ _ _ => Fold.along_of_forall fun _ _ _ => trivial) h
  · exact hP.applyEvent (Db.writeDraft_projection hwrite).2.1
  · rw [hsame.projection]
    exact hP

namespace Turn

/-- What every part preserves, in a turn that begins in a good state with a step that meets the
condition, every run preserves. -/
theorem run_invariant {C : World → Action → Prop} {Q : World → Option Task → Option String → Prop}
    (hpart : ∀ t t' : Turn, Q t.world t.running t.fresh → Q t.start none none →
      C t.start t.action → Part t t' → Q t'.world t'.running t'.fresh) {w w' : World}
    (h : Runs.Run World.step C w w') (hw : Q w none none) : Q w' none none := by
  refine h.invariant (P := fun w => Q w none none) (fun m a m' hm hC hstep => ?_) hw
  have hboth := step_invariant (C := C) (P := fun t => Q t.world t.running t.fresh ∧ Q t.start none none)
    (fun t t' ht hC hp => ⟨hpart t t' ht.1 ht.2 hC hp, by rw [(start_of_part hp).1]; exact ht.2⟩)
    hC hstep ⟨hm, hm⟩
  exact hboth.1

end Turn

end Sightr
