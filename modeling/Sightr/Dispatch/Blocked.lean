import Sightr.Dispatch.Tasks

/-!
# A blocked thread receives no message

A message goes to the guarded sender only while its thread is on a live shelf and nothing waits on the
operator. A handler that sends in the turn of its check keeps to that. One that waited in between does
not look again, a steer looks only at the shelf, and a pass at the shelf and the status.
-/

namespace Sightr

open Projection

/-- The thread is there and not archived, its status waits for nothing and neither does a request. -/
def Projection.TakesMessages (p : Projection) (threadId : String) : Prop :=
  ∃ thread, p.getThread threadId = some thread ∧ thread.shelf ≠ .archived ∧
    thread.status ≠ .approval ∧ thread.status ≠ .input ∧ p.hasOpenRequest threadId = false

namespace World

/-- Every message that was handed to the guarded sender found its thread ready for it. -/
def HandsOnlyFree (w : World) : Prop :=
  ∀ mark threadId path db now, Obs.handed mark threadId path db now ∈ w.log → db.projection.TakesMessages threadId

/-- What a send that waited did not look at again: all of it for a dispatch, the status and the requests
for a steer, the requests for a pass. -/
def sendsBlocked (w : World) : Action → Bool
  | .resume i answer _ =>
    match w.tasks[i]?, answer with
    | some (.dispatch _ thread _ _ .startBackground), .screen true
    | some (.dispatch _ thread _ _ .steerBackground), .screen true => !w.takesMessages thread.id
    | some (.dispatch _ thread _ _ (.enqueueReady _)), .composer ready =>
      decide (ready ≠ some false) && !w.takesMessages thread.id
    | some (.steer threadId rowId _ (.background _)), .screen true
    | some (.steer threadId rowId _ (.backgroundAgain _)), .screen true =>
      w.steerSends threadId rowId && (w.getThread threadId).any w.blocked
    | some (.steer threadId rowId _ (.waiting _ waiter due)), .go =>
      decide (w.waitOver waiter due = some .settled) && w.steerSends threadId rowId &&
        (w.getThread threadId).any w.blocked
    | some (.pass threadId (.ready _ row _)), .composer (some true) =>
      w.passTakes threadId row.id && w.hasOpenRequest threadId
    | _, _ => false
  | _ => false

theorem takesMessages_of_not_blocked {w : World} {threadId : String} {thread : ServerThread}
    (hthread : w.getThread threadId = some thread) (hshelf : thread.shelf ≠ .archived)
    (hblocked : w.blocked thread = false) : w.db.projection.TakesMessages threadId := by
  have hid : thread.id = threadId := Keyed.Table.key_of_find? hthread
  simp only [blocked, Bool.or_eq_false_iff, decide_eq_false_iff_not] at hblocked
  exact ⟨thread, hthread, hshelf, hblocked.1.1, hblocked.1.2, hid ▸ hblocked.2⟩

theorem takesMessages_iff {w : World} {threadId : String} :
    w.takesMessages threadId = true ↔ w.db.projection.TakesMessages threadId := by
  rw [takesMessages, Option.any_eq_true]
  constructor
  · rintro ⟨thread, hthread, h⟩
    simp only [Bool.and_eq_true, Bool.not_eq_true', decide_eq_true_eq] at h
    exact takesMessages_of_not_blocked hthread h.1 h.2
  · rintro ⟨thread, hthread, hshelf, happroval, hinput, hrequest⟩
    have hid : thread.id = threadId := Keyed.Table.key_of_find? hthread
    have hopen : w.hasOpenRequest thread.id = false := by
      rw [hid]
      exact hrequest
    exact ⟨thread, hthread, by simp [hshelf, blocked, happroval, hinput, hopen]⟩

end World

namespace Turn

open World

theorem Resumes.db {t : Turn} {task : Task} {answer : Answer} (h : t.Resumes task answer) :
    t.world.db = t.start.db := by
  obtain ⟨-, i, newId, drainer, -, -, -, hworld⟩ := h
  rw [hworld]
  rfl

theorem takesMessages_of_sends {t : Turn} {threadId : String} {path : SendPath}
    {task : Nat → Nat → Task} (h : t.Sends threadId path task)
    (hC : t.start.sendsBlocked t.action = false) : t.world.db.projection.TakesMessages threadId := by
  cases h with
  | start _ htakes => exact takesMessages_iff.mp htakes
  | waited hresumes hsend =>
    rw [hresumes.db]
    obtain ⟨-, i, newId, drainer, haction, htask, -, -⟩ := hresumes
    refine takesMessages_iff.mp ?_
    rcases hsend with ⟨rfl | rfl, rfl⟩ | ⟨rows, ready, rfl, rfl, hready⟩ <;>
      simpa [sendsBlocked, haction, htask, *] using hC
  | @steer threadId rowId press stage answer fresh row hresumes hsend hsends hfresh hrow =>
    rw [hresumes.db]
    obtain ⟨-, i, newId, drainer, haction, htask, -, -⟩ := hresumes
    have hblocked : t.start.blocked fresh = false := by
      rcases hsend with ⟨⟨thread, rfl | rfl⟩, rfl⟩ | ⟨thread, waiter, due, rfl, rfl, hover⟩ <;>
        simpa [sendsBlocked, haction, htask, hsends, hfresh, *] using hC
    have hshelf : fresh.shelf ≠ .archived := by
      simp only [steerSends, hfresh, Bool.and_eq_true, Option.any_some, decide_eq_true_eq] at hsends
      exact hsends.1
    exact takesMessages_of_not_blocked hfresh hshelf hblocked
  | @drained threadId thread fresh row still i passRef newId haction htask hrun htakes hthreads hrequests
      hdrainer htasks hfresh hstill hrow =>
    have hopen : t.start.hasOpenRequest threadId = false := by
      simpa [sendsBlocked, haction, htask, htakes] using hC
    have hchecked : fresh.shelf ≠ .archived ∧ isSettled fresh.status = true := by
      simp only [passTakes, hfresh, Bool.and_eq_true, Option.any_some, decide_eq_true_eq] at htakes
      exact htakes.1.1.1.1
    have hrequest : t.world.db.projection.hasOpenRequest threadId = false := by
      rw [Projection.hasOpenRequest, pendingRequests, pendingRows, hrequests]
      exact hopen
    refine ⟨fresh, ?_, hchecked.1, ?_, ?_, hrequest⟩
    · rw [Projection.getThread, hthreads]
      exact hfresh
    · intro heq
      simp [heq, isSettled] at hchecked
    · intro heq
      simp [heq, isSettled] at hchecked

theorem handed_of_part {t t' : Turn} (h : Part t t') {mark : Nat} {threadId : String}
    {path : SendPath} {db : Db} {now : Int} (hmem : .handed mark threadId path db now ∈ t'.world.log) :
    .handed mark threadId path db now ∈ t.world.log ∨
      db = t.world.db ∧ ∃ path task, t.Sends threadId path task := by
  have hcommitted {events : List StoredEvent} {log : List Obs}
      (hmem : Obs.handed mark threadId path db now ∈ events.map .committed ++ log) :
      .handed mark threadId path db now ∈ log := by
    rcases List.mem_append.mp hmem with hmem | hmem
    · obtain ⟨event, -, heq⟩ := List.mem_map.mp hmem
      cases heq
    · exact hmem
  have hechoes {w w' : World} (h : Echoes w w') (hmem : .handed mark threadId path db now ∈ w'.log) :
      .handed mark threadId path db now ∈ w.log := by
    obtain ⟨events, hlog, -⟩ := h.log
    exact hcommitted (hlog ▸ hmem)
  have haside {w w' : World} (h : Aside w w') (hmem : .handed mark threadId path db now ∈ w'.log) :
      .handed mark threadId path db now ∈ w.log := by
    obtain ⟨answers, hlog⟩ := h.log
    rw [hlog] at hmem
    rcases List.mem_append.mp hmem with hmem | hmem
    · obtain ⟨answer, -, heq⟩ := List.mem_map.mp hmem
      cases heq
    · exact hmem
  cases h with
  | aside h => exact .inl (haside h hmem)
  | later | issue | take | ended | spawn | beginSwitch | endSwitch | waitFired => exact .inl hmem
  | send h =>
    rcases List.mem_cons.mp hmem with heq | hmem
    · cases heq
      exact .inr ⟨rfl, _, _, h⟩
    · exact .inl hmem
  | sendBack | press =>
    rcases List.mem_cons.mp hmem with heq | hmem
    · cases heq
    · exact .inl hmem
  | @rowDone task answer owner rowId path' ref mark' result w rows before after change _ _ _ _ _ hw
      _ _ hafter hnotices =>
    have hback (hmem : .handed mark threadId path db now ∈ w.log) :
        .handed mark threadId path db now ∈ t.world.log := by
      rcases List.mem_cons.mp (haside hw hmem) with heq | hmem
      · cases heq
      · exact hmem
    cases happ : w.append (before ++ queueEvent owner rows change :: after) with
    | none => exact .inl (hback (by simpa [happ] using hmem))
    | some w' =>
      have hrewrote := rewrote_append hnotices (fun d hd => (hafter d hd).1) happ
      exact .inl (hback (hechoes hrewrote.toEchoes (by simpa [happ] using hmem)))
  | rewrote h => exact .inl (hechoes h.toEchoes hmem)
  | added _ _ _ _ _ h hw =>
    rcases List.mem_cons.mp hmem with heq | hmem
    · cases heq
    · exact .inl (hechoes h.toEchoes (haside hw hmem))
  | cancelled _ h hw =>
    rcases List.mem_cons.mp hmem with heq | hmem
    · cases heq
    · exact .inl (hechoes h.toEchoes (haside hw hmem))
  | noted h => exact .inl (hechoes h.toEchoes hmem)
  | outside _ _ _ h =>
    obtain ⟨events, -, hheard⟩ := heard_append h
    rw [hheard.log, ← List.map_reverse] at hmem
    exact .inl (hcommitted hmem)

end Turn

namespace World

/-- In every run from a bridge start whose waiting sends do not go on to a thread that is archived or
waits on the operator, every message handed to the guarded sender found a thread that takes it. -/
theorem handed_takesMessages {w : World} (h : Reaches (fun w a => w.sendsBlocked a = false) w) :
    w.HandsOnlyFree := by
  obtain ⟨batches, db, written, now, -, hrun⟩ := h
  refine Turn.run_invariant (Q := fun w _ _ => w.HandsOnlyFree) (fun t t' ht _ hC hpart => ?_) hrun ?_
  · intro mark threadId path db now hmem
    rcases Turn.handed_of_part hpart hmem with hmem | ⟨rfl, path, task, hsends⟩
    · exact ht mark threadId path db now hmem
    · exact Turn.takesMessages_of_sends hsends hC
  · intro mark threadId path db' now' hmem
    obtain ⟨event, heq, -⟩ := (booted_boot db now).log _ hmem
    cases heq

/-- A message for a working thread that waits for its background agents, read after the run ended. -/
def startedAtRest : List Action :=
  [.command (.messageDispatch "t1" "go on" [] .start) (testContext "c1") "n1",
    statusBatch .done 2000, .resume 0 (.screen true) "n2"]

/-- The same message, where the agent asks for an approval while its screen is read. -/
def startedAtApproval : List Action :=
  [.command (.messageDispatch "t1" "go on" [] .start) (testContext "c1") "n1",
    statusBatch .approval 2000, .resume 0 (.screen true) "n2"]

def isHanded : Obs → Bool
  | .handed .. => true
  | _ => false

/-- The thread at rest gets its message. -/
theorem handed_at_rest : ∃ w, Reaches (fun w a => w.sendsBlocked a = false) w ∧
    w.log.any isHanded = true ∧ w.HandsOnlyFree := by
  obtain ⟨w, hreaches, hhanded⟩ := reaches_of_exec .working startedAtRest
    (C := fun w a => w.sendsBlocked a = false) (p := fun w => w.log.any isHanded) (by decide +kernel)
  exact ⟨w, hreaches, hhanded, handed_takesMessages hreaches⟩

/-- The last that happened is a message handed to a thread that waits for an approval. -/
private def handedToApproval (w : World) : Bool :=
  match w.log with
  | .handed _ threadId _ db _ :: _ => (db.projection.getThread threadId).any (·.status = .approval)
  | _ => false

/-- The thread that now waits for an approval gets it too. -/
theorem handed_at_approval : ¬ ∀ w, Reaches Always w → w.HandsOnlyFree := by
  intro h
  obtain ⟨w, hreaches, hlast⟩ := reaches_of_exec .working startedAtApproval
    (C := Always) (p := handedToApproval) (by decide +kernel)
  unfold handedToApproval at hlast
  split at hlast
  · rename_i mark threadId path db now rest hlog
    obtain ⟨thread, hthread, -, happroval, -⟩ := h w hreaches mark threadId path db now (by simp [hlog])
    simp [hthread, happroval] at hlast
  · cases hlast

end World

end Sightr
