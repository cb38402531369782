import Sightr.Dispatch.Tasks

/-!
# Presses of the interrupt keys

A second press of the interrupt keys while the run is still stopping does something else than the first.
So a handler looks for a recent press before it waits for the pane, and the press is noted once the keys
are out. Two handlers that both looked before either wrote press twice; where keys go out only while no
other handler of the thread may still write its own, presses keep their distance.
-/

namespace Sightr

open Projection

variable (threadId : String)

/-- The committed event takes the thread's status away from `working`. -/
def StoredEvent.leavesWorking (event : StoredEvent) : Bool :=
  event.threadId = some threadId && (World.statusOf event.payload).any (· ≠ .working)

/-- When the thread's interrupt keys went out, newest first, as long as its committed status stayed
`working`. -/
def presses (threadId : String) : List Obs → List Int
  | [] => []
  | .pressed id at_ :: log => if id = threadId then at_ :: presses threadId log else presses threadId log
  | .committed event :: log => if event.leavesWorking threadId then [] else presses threadId log
  | _ :: log => presses threadId log

/-- The presses keep their distance: each is at least `INTERRUPT_REPEAT_MS` after every earlier one. -/
def PressedApart (log : List Obs) : Prop :=
  (presses threadId log).Pairwise fun later earlier => INTERRUPT_REPEAT_MS ≤ later - earlier

theorem presses_answered (answers : List (String × Option EffectOutcome)) (log : List Obs) :
    presses threadId (answers.map (fun a => .answered a.1 a.2) ++ log) = presses threadId log := by
  induction answers with
  | nil => rfl
  | cons answer answers ih => exact ih

theorem presses_committed (events : List StoredEvent) (log : List Obs) :
    presses threadId (events.map .committed ++ log) =
      if events.any (·.leavesWorking threadId) then [] else presses threadId log := by
  induction events with
  | nil => rfl
  | cons event events ih =>
    rw [List.map_cons, List.cons_append, presses, ih, List.any_cons]
    by_cases h : event.leavesWorking threadId = true <;> simp [h]

variable {threadId : String}

theorem leavesWorking_of_isOwn {event : StoredEvent} (h : isOwn event.payload = true) :
    event.leavesWorking threadId = false := by
  unfold StoredEvent.leavesWorking
  cases hpay : event.payload with
  | threadUpdated patch at_ =>
    have hstatus : patch.status = .absent := by simpa [isOwn, hpay] using h
    simp [World.statusOf, hstatus]
  | _ => simp [World.statusOf]

theorem Task.mayPress_of_isDeferred {task : Task} (h : task.isDeferred = true) :
    task.mayPress threadId = false := by
  cases task <;> first | rfl | cases h

namespace World

/-! ### The recorded press -/

/-- The payload makes the dispatcher forget its thread's press. -/
private def forgetsPress (payload : ServerPayload) : Bool :=
  payload.type = .threadArchived || (statusOf payload).any (· ≠ .working)

/-- The event makes the dispatcher forget the thread's press. -/
private def forgets (threadId : String) (event : StoredEvent) : Bool :=
  event.threadId.filter (· ≠ "") = some threadId && forgetsPress event.payload

theorem interrupting_drainOn (w : World) (id : String) (payload : ServerPayload) :
    (w.drainOn id payload).interrupting = w.interrupting := by
  unfold drainOn
  split
  · split
    · rfl
    · split_ifs <;> rfl
  all_goals first | rfl | (split_ifs <;> rfl)

theorem interrupting_interruptOn (w : World) (id threadId : String) (payload : ServerPayload) :
    (w.interruptOn id payload).interrupting threadId =
      if id = threadId ∧ forgetsPress payload = true then none else w.interrupting threadId := by
  by_cases hforgets : forgetsPress payload = true
  · have heq : w.interruptOn id payload =
        { w with interrupting := Function.update w.interrupting id none } := if_pos hforgets
    rw [heq]
    simp [Function.update_apply, hforgets, eq_comm]
  · have heq : w.interruptOn id payload = w := if_neg hforgets
    rw [heq]
    simp [hforgets]

theorem interrupting_onEvent (w : World) (event : StoredEvent) (threadId : String) :
    (w.onEvent event).interrupting threadId = if forgets threadId event then none else w.interrupting threadId := by
  unfold onEvent forgets
  dsimp only
  cases event.threadId.filter (· ≠ "") with
  | none => simp [observe]
  | some id =>
    dsimp only
    rw [interrupting_interruptOn, interrupting_drainOn]
    simp [observe]

variable {w : World}

theorem interrupting_append {w' : World} {drafts : List EventDraft} {options : AppendOptions}
    {events : List StoredEvent} (happ : w.append drafts options = some w')
    (hevents : w.db.append { drafts, options, ts := w.now } = .ok (w'.db, events)) (threadId : String) :
    w'.interrupting threadId = if events.any (forgets threadId) then none else w.interrupting threadId := by
  obtain ⟨db, events', hok, rfl⟩ := append_eq_some.mp happ
  rw [db_foldl_onEvent] at hevents
  obtain ⟨-, rfl⟩ := Prod.mk.inj (Except.ok.inj (hok.symm.trans hevents))
  have hfold (events : List StoredEvent) (w : World) : (events.foldl onEvent w).interrupting threadId =
        if events.any (forgets threadId) then none else w.interrupting threadId := by
    induction events generalizing w with
    | nil => rfl
    | cons event events ih =>
      rw [List.foldl_cons, ih, interrupting_onEvent, List.any_cons]
      by_cases h : forgets threadId event = true <;> simp [h]
  exact hfold events' _

/-! ### Steps -/

/-- The step writes no interrupt keys while another handler of the thread may still write its own, and
archives no thread whose keys went out within `INTERRUPT_REPEAT_MS`. -/
def PressesAlone (w : World) : Action → Prop
  | .resume i (.key true) _ => ∀ task ∈ w.tasks[i]?, ∀ threadId ∈ task.writesKeys,
      ∀ other ∈ w.tasks.eraseIdx i, other.mayPress threadId = false
  | .environment drafts _ => ∀ draft ∈ drafts, draft.payload.type = .threadArchived →
      ∀ threadId ∈ draft.threadId, w.pressedRecently threadId = false
  | _ => True

instance (w : World) (a : Action) : Decidable (PressesAlone w a) := by
  unfold PressesAlone
  split <;> infer_instance

theorem not_recent {threadId : String} (h : w.pressedRecently threadId = false) {at_ : Int}
    (hat : w.interrupting threadId = some at_) : INTERRUPT_REPEAT_MS ≤ w.now - at_ := by
  simpa [pressedRecently, hat] using h

end World

namespace Turn

open World

structure Pressed (threadId : String) (w : World) (running : Option Task) : Prop where
  apart : PressedApart threadId w.log
  /-- A press within `INTERRUPT_REPEAT_MS` is the recorded one. -/
  known : ∀ at_ ∈ presses threadId w.log, w.interrupting threadId = some at_ ∨ INTERRUPT_REPEAT_MS ≤ w.now - at_
  /-- A handler may press only where no press is that young. -/
  clear : ∀ task ∈ running.toList ++ w.tasks, task.mayPress threadId = true →
    ∀ at_ ∈ presses threadId w.log, INTERRUPT_REPEAT_MS ≤ w.now - at_

private def Quiet (threadId : String) (t t' : Turn) : Prop :=
  presses threadId t'.world.log = presses threadId t.world.log ∧
    t'.world.interrupting threadId = t.world.interrupting threadId ∧ t.world.now ≤ t'.world.now

variable {t t' : Turn}

theorem quiet_or_of_part (threadId : String) (h : Part t t') : Quiet threadId t t' ∨
      (∃ task task', t.Resumes task (.key true) ∧ task.writesKeys = some threadId ∧
        (∀ id, task'.mayPress id = false) ∧ t'.running = none ∧
        t'.world = ({ t.world with
          interrupting := Function.update t.world.interrupting threadId (some t.world.now) }.observe
            (.pressed threadId t.world.now)).spawn task') ∨
      t.world = t.start ∧ t'.running = t.running ∧ ∃ drafts options,
        t.action = .environment drafts options ∧ t.world.append drafts options = some t'.world := by
  have hechoes {w w' : World} (h : Echoes w w') : presses threadId w'.log = presses threadId w.log ∧
        w'.interrupting threadId = w.interrupting threadId ∧ w.now ≤ w'.now := by
    obtain ⟨events, hlog, hown⟩ := h.log
    have hnone : events.any (·.leavesWorking threadId) = false := by
      simpa [List.any_eq_false] using fun e he => leavesWorking_of_isOwn (hown e he)
    refine ⟨?_, by rw [h.interrupting], h.now.ge⟩
    rw [hlog, presses_committed, hnone]
    rfl
  have haside {w w' : World} (h : Aside w w') : presses threadId w'.log = presses threadId w.log ∧
        w'.interrupting threadId = w.interrupting threadId ∧ w.now ≤ w'.now := by
    obtain ⟨answers, hlog⟩ := h.log
    exact ⟨by rw [hlog, presses_answered], by rw [h.interrupting], h.now.ge⟩
  have hboth {w m w' : World} (h : Echoes w m) (h' : Aside m w') :
      presses threadId w'.log = presses threadId w.log ∧
        w'.interrupting threadId = w.interrupting threadId ∧ w.now ≤ w'.now :=
    ⟨(haside h').1.trans (hechoes h).1, (haside h').2.1.trans (hechoes h).2.1,
      (hechoes h).2.2.trans (haside h').2.2⟩
  cases h with
  | aside h => exact .inl (haside h)
  | later ms => exact .inl ⟨rfl, rfl, by simp⟩
  | issue | take | ended | spawn | send | sendBack | beginSwitch | endSwitch | waitFired =>
    exact .inl ⟨rfl, rfl, le_rfl⟩
  | @rowDone task answer owner rowId path ref mark result w rows before after change _ _ _ _ _ hw _ _ hafter
      hnotices =>
    have hback := haside hw
    cases happ : w.append (before ++ queueEvent owner rows change :: after) with
    | none => exact .inl hback
    | some w' =>
      have hown := hechoes (rewrote_append hnotices (fun d hd => (hafter d hd).1) happ).toEchoes
      exact .inl ⟨hown.1.trans hback.1, hown.2.1.trans hback.2.1, hback.2.2.trans hown.2.2⟩
  | rewrote h => exact .inl (hechoes h.toEchoes)
  | added _ _ _ _ _ h hw =>
    have hall := hboth h.toEchoes hw
    exact .inl hall
  | cancelled _ h hw =>
    have hall := hboth h.toEchoes hw
    exact .inl hall
  | noted h => exact .inl (hechoes h.toEchoes)
  | @press task task' owner hresumes _ hwrites _ _ hafter =>
    by_cases hother : owner = threadId
    · subst hother
      exact .inr (.inl ⟨task, task', hresumes, hwrites, hafter, rfl, rfl⟩)
    · exact .inl ⟨if_neg hother, Function.update_of_ne (Ne.symm hother) _ _, le_rfl⟩
  | outside haction _ hstart happ => exact .inr (.inr ⟨hstart, rfl, _, _, haction, happ⟩)

variable {threadId : String}

section

variable (h : Pressed threadId t.world t.running)
include h

theorem clear_of_adds {task : Task} (hadds : t.Adds t' task) (hmay : task.mayPress threadId = true) :
    ∀ at_ ∈ presses threadId t.world.log, INTERRUPT_REPEAT_MS ≤ t.world.now - at_ := by
  have hrecent (hnot : t.world.pressedRecently threadId = false) :
      ∀ at_ ∈ presses threadId t.world.log, INTERRUPT_REPEAT_MS ≤ t.world.now - at_ := by
    intro at_ hat
    exact (h.known at_ hat).elim (not_recent hnot) id
  cases hadds with
  | spawn hspawns =>
    cases hspawns with
    | dispatch | pass => cases hmay
    | interrupt _ hpress =>
      have hid : _ = threadId := of_decide_eq_true hmay
      exact hrecent (hid ▸ hpress)
    | goesOn hrun _ _ _ hpress =>
      exact h.clear _ (mem_tasks_of_running hrun) (hpress threadId hmay)
  | send _ _ hsends => cases hsends <;> simp [Task.mayPress] at hmay
  | switch hswitch => cases task <;> first | cases hmay | cases hswitch
  | @steer owner rowId thread press _ _ hthread _ hpress =>
    cases press with
    | false => cases hmay
    | true =>
      have hid : thread.id = threadId := of_decide_eq_true hmay
      exact hrecent (hid ▸ hthread ▸ hpress rfl)
  | pressed _ _ _ hpress => exact absurd hmay (by simp [hpress])

theorem known_of_forgets {w : World} {drafts : List EventDraft} {options : AppendOptions}
    {events : List StoredEvent} (hstart : t.world = t.start)
    (hC : t.start.PressesAlone t.action) (haction : t.action = .environment drafts options)
    (hevents : t.world.db.append { drafts, options, ts := t.world.now } = .ok (w.db, events))
    (hleaves : ¬ events.any (·.leavesWorking threadId) = true) (hforgot : events.any (forgets threadId) = true) :
    ∀ at_ ∈ presses threadId t.world.log, INTERRUPT_REPEAT_MS ≤ t.world.now - at_ := by
  obtain ⟨event, hevent, hforgets⟩ := List.any_eq_true.mp hforgot
  simp only [forgets, Bool.and_eq_true, decide_eq_true_eq] at hforgets
  obtain ⟨hid, -⟩ := Option.filter_eq_some_iff.mp hforgets.1
  have hstays : event.leavesWorking threadId = false := by
    simpa using List.any_eq_false.mp (Bool.not_eq_true _ ▸ hleaves) event hevent
  have htype : event.payload.type = .threadArchived := by
    have hworking : (World.statusOf event.payload).any (· ≠ .working) = false := by
      simpa [StoredEvent.leavesWorking, hid] using hstays
    have hboth := hforgets.2
    rw [forgetsPress, hworking, Bool.or_false] at hboth
    exact of_decide_eq_true hboth
  obtain ⟨draft, hdraft, hdraftType, hdraftId, -⟩ := Db.exists_draft_of_written hevents event hevent
  rw [haction] at hC
  have hnot := hC draft hdraft (hdraftType ▸ htype) threadId (hdraftId ▸ hid)
  intro at_ hat
  exact (h.known at_ hat).elim (not_recent (hstart ▸ hnot)) id

theorem pressed_of_part (hC : t.start.PressesAlone t.action) (hpart : Part t t') :
    Pressed threadId t'.world t'.running := by
  rcases quiet_or_of_part threadId hpart with ⟨hlog, hinterrupting, hnow⟩ |
    ⟨task, task', hresumes, hwrites, hafter, hrun, hworld⟩ |
    ⟨hstart, hrun, drafts, options, haction, happ⟩
  · have hlater {at_ : Int} (hat : INTERRUPT_REPEAT_MS ≤ t.world.now - at_) :
        INTERRUPT_REPEAT_MS ≤ t'.world.now - at_ := by omega
    refine ⟨?_, fun at_ hat => ?_, fun task htask hmay at_ hat => ?_⟩
    · rw [PressedApart, hlog]
      exact h.apart
    · rw [hlog] at hat
      rw [hinterrupting]
      exact (h.known at_ hat).imp_right hlater
    · rw [hlog] at hat
      rcases mem_tasks_of_part hpart htask with hold | hcall | hadds
      · exact hlater (h.clear task hold hmay at_ hat)
      · exact absurd hmay (by simp [Task.mayPress_of_isDeferred hcall])
      · exact hlater (clear_of_adds h hadds hmay at_ hat)
  · have hmay := Task.mayPress_of_writesKeys hwrites
    have hold := h.clear task (mem_tasks_of_running hresumes.1) hmay
    have hlog : presses threadId t'.world.log = t.world.now :: presses threadId t.world.log := by
      rw [hworld]
      exact if_pos rfl
    have hnow : t'.world.now = t.world.now := by rw [hworld]; rfl
    refine ⟨?_, fun at_ hat => ?_, fun other hother hmayOther => ?_⟩
    · rw [PressedApart, hlog]
      exact List.pairwise_cons.mpr ⟨hold, h.apart⟩
    · rw [hlog] at hat
      rcases List.mem_cons.mp hat with rfl | hat
      · refine .inl ?_
        rw [hworld]
        exact Function.update_self ..
      · exact .inr (hnow ▸ hold at_ hat)
    · have htasks : t'.world.tasks = t.world.tasks ++ [task'] := by
        rw [hworld]
        rfl
      rw [hrun, htasks, Option.toList_none, List.nil_append] at hother
      rcases List.mem_append.mp hother with hother | hother
      · obtain ⟨-, i, newId, drainer, haction, htask, -, hresumed⟩ := hresumes
        rw [hresumed] at hother
        simp only [PressesAlone, haction] at hC
        exact absurd hmayOther (by simp [hC task htask threadId hwrites other hother])
      · obtain rfl := List.mem_singleton.mp hother
        exact absurd hmayOther (by simp [hafter])
  · obtain ⟨events, hevents, hheard⟩ := heard_append happ
    obtain ⟨calls, htasks, hcalls⟩ := hheard.tasks
    have hlog : presses threadId t'.world.log =
        if events.any (·.leavesWorking threadId) then [] else presses threadId t.world.log := by
      rw [hheard.log, ← List.map_reverse, presses_committed, List.any_reverse]
    by_cases hleaves : events.any (·.leavesWorking threadId) = true
    · rw [if_pos hleaves] at hlog
      refine ⟨?_, ?_, ?_⟩
      · rw [PressedApart, hlog]
        exact List.Pairwise.nil
      · simp [hlog]
      · simp [hlog]
    · rw [if_neg hleaves] at hlog
      refine ⟨?_, fun at_ hat => ?_, fun task htask hmay at_ hat => ?_⟩
      · rw [PressedApart, hlog]
        exact h.apart
      · rw [hlog] at hat
        rw [hheard.now, interrupting_append happ hevents]
        split_ifs with hforgot
        · exact .inr (known_of_forgets h hstart hC haction hevents hleaves hforgot at_ hat)
        · exact h.known at_ hat
      · rw [hlog] at hat
        rw [hheard.now]
        rw [hrun, htasks, ← List.append_assoc] at htask
        rcases List.mem_append.mp htask with hold | hcall
        · exact h.clear task hold hmay at_ hat
        · exact absurd hmay (by simp [Task.mayPress_of_isDeferred (hcalls task hcall)])

end

end Turn

namespace World

/-- In every run from a bridge start in which keys go out only while no other handler of the thread may
still write its own, and no thread is archived within `INTERRUPT_REPEAT_MS` of a press, the presses of
every thread keep their distance while its status stays `working`. -/
theorem presses_apart {w : World} (h : Reaches PressesAlone w) (threadId : String) :
    PressedApart threadId w.log := by
  obtain ⟨batches, db, written, now, -, hrun⟩ := h
  have hnone (log : List Obs) (hlog : ∀ obs ∈ log, ∃ event, obs = .committed event ∧
      isOwn event.payload = true) : presses threadId log = [] := by
    induction log with
    | nil => rfl
    | cons obs log ih =>
      obtain ⟨event, rfl, -⟩ := hlog obs List.mem_cons_self
      rw [presses, ih fun o ho => hlog o (List.mem_cons_of_mem _ ho)]
      split_ifs <;> rfl
  have hbooted := hnone _ (booted_boot db now).log
  refine (Turn.run_invariant (Q := fun w running _ => Turn.Pressed threadId w running)
    (fun t t' ht _ hC hpart => Turn.pressed_of_part ht hC hpart) hrun ⟨?_, ?_, ?_⟩).apart
  · rw [PressedApart, hbooted]
    exact List.Pairwise.nil
  · simp [hbooted]
  · simp [hbooted]

/-- Two Stops, the second once the first may be repeated. -/
def stoppedTwice : List Action :=
  [.command (.runInterrupt "t1") (testContext "c1") "n1", .resume 0 (.turn (some true)) "n2",
    .resume 0 (.key true) "n3", .tick 15000,
    .command (.runInterrupt "t1") (testContext "c2") "n4", .resume 1 (.turn (some true)) "n5",
    .resume 1 (.key true) "n6"]

/-- Two Stops that both wait for the pane before either presses. -/
def stoppedAtOnce : List Action :=
  [.command (.runInterrupt "t1") (testContext "c1") "n1",
    .command (.runInterrupt "t1") (testContext "c2") "n2", .resume 0 (.turn (some true)) "n3",
    .resume 1 (.key true) "n4", .resume 0 (.turn (some true)) "n5", .resume 1 (.key true) "n6"]

/-- Both Stops press, far enough apart. -/
theorem presses_apart_twice : ∃ w, Reaches PressesAlone w ∧ presses "t1" w.log = [15000, 0] ∧
    PressedApart "t1" w.log := by
  obtain ⟨w, hreaches, hpresses⟩ := reaches_of_exec .working stoppedTwice (C := PressesAlone)
    (p := fun w => presses "t1" w.log = [15000, 0]) (by decide +kernel)
  exact ⟨w, hreaches, of_decide_eq_true hpresses, presses_apart hreaches "t1"⟩

/-- The second key goes out right after the first. -/
theorem presses_at_once : ¬ ∀ w, Reaches Always w → ∀ threadId, PressedApart threadId w.log := by
  intro h
  obtain ⟨w, hreaches, hpresses⟩ := reaches_of_exec .working stoppedAtOnce (C := Always)
    (p := fun w => presses "t1" w.log = [0, 0]) (by decide +kernel)
  have hapart := h w hreaches "t1"
  rw [PressedApart, of_decide_eq_true hpresses] at hapart
  revert hapart
  decide

end World

end Sightr
