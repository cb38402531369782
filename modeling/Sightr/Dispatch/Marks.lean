import Sightr.Dispatch.Tasks

/-!
# The drainer's waits

What each operation of the drainer does to the wait of each thread, the state objects being in order:
one per thread, and no wait on an object that no thread has.
-/

namespace Sightr

open Projection
open Keyed (Table)

namespace Drainer

variable {d : Drainer}

/-! ### State objects -/

variable {id : String} {ref : Nat}

theorem ok_modify (hok : d.Ok) (hstate : d.states id = some ref) (f : DrainState → DrainState) :
    (d.modify ref f).Ok := by
  refine ⟨hok.injective, hok.lt, fun r hr => ?_⟩
  simp only [modify, Function.update_apply] at hr
  split_ifs at hr with h
  · exact ⟨id, h ▸ hstate⟩
  · exact hok.awaiting r hr

theorem awaiting_modify (hok : d.Ok) (hstate : d.states id = some ref) (f : DrainState → DrainState) (id' : String) :
    (d.modify ref f).awaiting id' = if id' = id then (f (d.heap ref)).awaiting else d.awaiting id' := by
  simp only [Drainer.awaiting, modify]
  split_ifs with h
  · rw [h, hstate]
    simp
  · cases hstate' : d.states id' with
    | none => rfl
    | some ref' =>
      have hne : ref' ≠ ref := by
        rintro rfl
        exact h (hok.injective _ _ _ hstate' hstate)
      simp [Function.update_of_ne hne]

theorem ok_modifyOf (hok : d.Ok) (id : String) (f : DrainState → DrainState) : (d.modifyOf id f).Ok := by
  unfold modifyOf
  split
  · exact hok
  · rename_i ref hstate
    exact ok_modify hok hstate f

theorem awaiting_modifyOf (hok : d.Ok) (id id' : String) (f : DrainState → DrainState) :
    (d.modifyOf id f).awaiting id' = if id' = id then (d.states id).bind fun ref => (f (d.heap ref)).awaiting
      else d.awaiting id' := by
  unfold modifyOf
  split
  · rename_i hstate
    split_ifs with h
    · rw [h, Drainer.awaiting, hstate]
      rfl
    · rfl
  · rename_i ref hstate
    rw [awaiting_modify hok hstate, hstate]
    rfl

@[simp] theorem nextMark_modifyOf (d : Drainer) (id : String) (f : DrainState → DrainState) :
    (d.modifyOf id f).nextMark = d.nextMark := by
  unfold modifyOf
  split <;> rfl

/-! ### Waits -/

theorem awaiting_clearAwaiting (hok : d.Ok) (id id' : String) :
    (d.clearAwaiting id).awaiting id' = if id' = id then none else d.awaiting id' := by
  rw [clearAwaiting, awaiting_modifyOf hok]
  refine if_congr Iff.rfl ?_ rfl
  cases d.states id <;> rfl

theorem awaiting_seeWorking (hok : d.Ok) (id id' : String) : (d.seeWorking id).awaiting id' =
      if id' = id then (d.awaiting id).map fun mark => { mark with sawWorking := true }
      else d.awaiting id' := by
  rw [seeWorking, awaiting_modifyOf hok]
  refine if_congr Iff.rfl ?_ rfl
  rw [Drainer.awaiting]
  cases d.states id <;> rfl

theorem ok_forget (hok : d.Ok) (id : String) : (d.forget id).Ok := by
  have hclear := ok_modifyOf (ok_modifyOf hok id fun s => { s with awaiting := none }) id
    fun s => { s with retry := none }
  refine ⟨fun a b ref ha hb => ?_, fun a ref ha => ?_, fun ref href => ?_⟩
  · simp only [forget, Function.update_apply] at ha hb
    split_ifs at ha hb
    exact hclear.injective a b ref ha hb
  · simp only [forget, Function.update_apply] at ha
    split_ifs at ha
    exact hclear.lt a ref ha
  · obtain ⟨a, ha⟩ := hclear.awaiting ref href
    refine ⟨a, ?_⟩
    simp only [forget, Function.update_apply]
    rw [if_neg]
    · exact ha
    · rintro rfl
      refine href ?_
      have hnone : ((d.clearAwaiting a).clearRetry a).awaiting a = none := by
        rw [((d.clearAwaiting a).quiet_clearRetry a (ok_modifyOf hok a _)).awaiting,
          awaiting_clearAwaiting hok, if_pos rfl]
      rw [Drainer.awaiting] at hnone
      exact (congrArg (Option.bind · _) ha).symm.trans hnone

theorem awaiting_forget (hok : d.Ok) (id id' : String) :
    (d.forget id).awaiting id' = if id' = id then none else d.awaiting id' := by
  have hclear := awaiting_clearAwaiting hok id id'
  have hretry := ((d.clearAwaiting id).quiet_clearRetry id (ok_modifyOf hok id _)).awaiting id'
  split_ifs with h
  · simp [Drainer.awaiting, forget, h]
  · rw [if_neg h] at hclear
    rw [← hclear, ← hretry]
    simp [Drainer.awaiting, forget, Function.update_of_ne h]

/-! ### Sends -/

/-- Beginning a send: the thread waits for it under a new mark, and no other wait changes. -/
theorem beginSend_spec (hok : d.Ok) (id : String) : ∃ d' ref,
    d.beginSend id = (d', ref, d.nextMark) ∧ d'.Ok ∧ d'.nextMark = d.nextMark + 1 ∧
      ∀ id', d'.awaiting id' = if id' = id then some { id := d.nextMark } else d.awaiting id' := by
  have hcleared := ok_modifyOf hok id fun s => { s with awaiting := none }
  have hquiet := (d.clearAwaiting id).quiet_stateOf id hcleared
  obtain ⟨m, ref, hm⟩ : ∃ m ref, (d.clearAwaiting id).stateOf id = (m, ref) := ⟨_, _, rfl⟩
  have hstate : m.states id = some ref := by
    unfold stateOf at hm
    split at hm <;> cases hm
    · assumption
    · exact Function.update_self ..
  rw [hm] at hquiet
  have hmark : m.nextMark = d.nextMark :=
    hquiet.nextMark.trans (nextMark_modifyOf d id fun s => { s with awaiting := none })
  have hbegin : d.beginSend id = ({ m.modify ref fun s => { s with awaiting := some { id := m.nextMark } } with
        nextMark := m.nextMark + 1 }, ref, m.nextMark) := by
    unfold beginSend
    rw [hm]
    rfl
  rw [hmark] at hbegin
  obtain ⟨hinjective, hlt, hawaiting⟩ := ok_modify hquiet.ok hstate fun s =>
    { s with awaiting := some { id := d.nextMark } }
  refine ⟨_, ref, hbegin, ⟨hinjective, hlt, hawaiting⟩, rfl, fun id' => ?_⟩
  show (m.modify ref fun s => { s with awaiting := some { id := d.nextMark } }).awaiting id' = _
  rw [awaiting_modify hquiet.ok hstate]
  split_ifs with h
  · rfl
  · rw [hquiet.awaiting, awaiting_clearAwaiting hok, if_neg h]

/-- A send that comes back touches the wait of one thread at most: of the one that waits under its mark. -/
theorem finishSend_spec (hok : d.Ok) {ref mark : Nat} (sent : Bool) (status : ThreadStatus) (now : Int) :
    (d.finishSend ref mark sent status now).Ok ∧ (d.finishSend ref mark sent status now).nextMark = d.nextMark ∧
      ∀ id, (d.finishSend ref mark sent status now).awaiting id = d.awaiting id ∨
        ∃ m, d.awaiting id = some m ∧ m.id = mark ∧ (d.finishSend ref mark sent status now).awaiting id =
            if !sent || m.sawWorking && isSettled status then none
            else some { m with due := some (now + RUN_WAIT_MS) } := by
  unfold finishSend
  cases hcurrent : (d.heap ref).awaiting with
  | none => exact ⟨hok, rfl, fun _ => .inl rfl⟩
  | some current =>
    dsimp only
    by_cases hid : current.id = mark
    · obtain ⟨id₀, hstate⟩ := hok.awaiting ref (by simp [hcurrent])
      have hmodify (f : DrainState → DrainState) (hf : (f (d.heap ref)).awaiting =
          if !sent || current.sawWorking && isSettled status then none
          else some { current with due := some (now + RUN_WAIT_MS) }) :
          (d.modify ref f).Ok ∧ (d.modify ref f).nextMark = d.nextMark ∧
            ∀ id, (d.modify ref f).awaiting id = d.awaiting id ∨
              ∃ m, d.awaiting id = some m ∧ m.id = mark ∧ (d.modify ref f).awaiting id =
                if !sent || m.sawWorking && isSettled status then none
                else some { m with due := some (now + RUN_WAIT_MS) } := by
        refine ⟨ok_modify hok hstate f, rfl, fun id => ?_⟩
        by_cases h : id = id₀
        · subst h
          refine .inr ⟨current, by rw [Drainer.awaiting, hstate]; exact hcurrent, hid, ?_⟩
          rw [awaiting_modify hok hstate, if_pos rfl, hf]
        · exact .inl (by rw [awaiting_modify hok hstate, if_neg h])
      rw [if_neg (not_not.mpr hid)]
      by_cases hsent : sent = true
      · subst hsent
        by_cases hwhole : (current.sawWorking && isSettled status) = true
        · rw [if_neg (by simp), if_pos hwhole]
          exact hmodify _ (by simp [hwhole])
        · rw [if_neg (by simp), if_neg hwhole]
          exact hmodify _ (by simp [hwhole])
      · rw [if_pos (by simpa using hsent)]
        exact hmodify _ (by simp [hsent])
    · rw [if_pos hid]
      exact ⟨hok, rfl, fun _ => .inl rfl⟩

/-! ### Committed events -/

/-- What a committed event does to its thread's wait. -/
def hear (payload : ServerPayload) (mark : Option Mark) : Option Mark :=
  match World.statusOf payload with
  | some status =>
    if status = .working then mark.map fun m => { m with sawWorking := true }
    else if isSettled status && mark.any (·.sawWorking) then none else mark
  | none =>
    if payload.type = .threadArchived then none
    else if payload.type = .runEnded && mark.any (·.sawWorking) then none else mark

end Drainer

namespace World

open Drainer

variable {w : World}

theorem awaiting_drainOn (hok : w.drainer.Ok) (threadId : String) (payload : ServerPayload) :
    (w.drainOn threadId payload).drainer.Ok ∧ (w.drainOn threadId payload).drainer.nextMark = w.drainer.nextMark ∧
      ∀ id, (w.drainOn threadId payload).drainer.awaiting id =
        if id = threadId then hear payload (w.drainer.awaiting threadId) else w.drainer.awaiting id := by
  have hsame (mark : Option Mark) (hmark : mark = w.drainer.awaiting threadId) (id : String) :
      w.drainer.awaiting id = if id = threadId then mark else w.drainer.awaiting id := by
    split_ifs with h
    · rw [h, hmark]
    · rfl
  have hnotify (d : Drainer) (why : SettleWait) : d.Quiet (d.notifyWaiters threadId why) :=
    quiet_of_eq rfl rfl rfl rfl
  have hclear := ok_modifyOf hok threadId fun s => { s with awaiting := none }
  unfold drainOn
  split
  · rename_i patch at_
    split
    · rename_i hstatus
      exact ⟨hok, rfl, hsame _ (by rw [hear, hstatus]; simp [Payload.type])⟩
    · rename_i status hstatus
      by_cases hworking : status = .working
      · rw [if_pos hworking]
        refine ⟨ok_modifyOf hok _ _, nextMark_modifyOf .., fun id => ?_⟩
        rw [hear, hstatus]
        simpa [hworking] using awaiting_seeWorking hok threadId id
      · rw [if_neg hworking]
        by_cases hsettled : isSettled status = true
        · rw [if_neg (by simp [hsettled])]
          by_cases hsaw : (w.drainer.awaiting threadId).any (·.sawWorking) = true
          · dsimp only
            rw [if_pos hsaw]
            have hquiet := hnotify (w.drainer.clearAwaiting threadId) .settled hclear
            refine ⟨hquiet.ok, hquiet.nextMark.trans (nextMark_modifyOf ..), fun id => ?_⟩
            refine (hquiet.awaiting id).trans ?_
            rw [awaiting_clearAwaiting hok, hear, hstatus]
            simp [hworking, hsettled, hsaw]
          · dsimp only
            rw [if_neg hsaw]
            have hquiet := hnotify w.drainer .settled hok
            refine ⟨hquiet.ok, hquiet.nextMark, fun id => (hquiet.awaiting id).trans ?_⟩
            refine hsame _ ?_ id
            rw [hear, hstatus]
            simp [hworking, hsaw]
        · rw [if_pos (by simp [hsettled])]
          exact ⟨hok, rfl, hsame _ (by rw [hear, hstatus]; simp [hworking, hsettled])⟩
  · by_cases hsaw : (w.drainer.awaiting threadId).any (·.sawWorking) = true
    · rw [if_pos hsaw]
      refine ⟨hclear, nextMark_modifyOf .., fun id => ?_⟩
      simpa [hear, statusOf, Payload.type, hsaw, spawn] using awaiting_clearAwaiting hok threadId id
    · rw [if_neg hsaw]
      exact ⟨hok, rfl, hsame _ (by simp [hear, statusOf, Payload.type, hsaw])⟩
  · have hquiet := hnotify (w.drainer.forget threadId) .gone (ok_forget hok threadId)
    refine ⟨hquiet.ok, hquiet.nextMark.trans ?_, fun id => (hquiet.awaiting id).trans ?_⟩
    · exact (nextMark_modifyOf ..).trans (nextMark_modifyOf ..)
    · simpa [hear, statusOf, Payload.type] using awaiting_forget hok threadId id
  · split_ifs <;> exact ⟨hok, rfl, hsame _ (by simp [hear, statusOf, Payload.type])⟩
  · split_ifs <;> exact ⟨hok, rfl, hsame _ (by simp [hear, statusOf, Payload.type])⟩
  · refine ⟨hok, rfl, hsame _ ?_⟩
    cases payload <;> first | (simp [hear, statusOf, Payload.type]; done) | (exfalso; simp_all)

/-! ### Batches -/

/-- What a committed event does to the wait of the thread `id`. -/
def hearEvent (id : String) (mark : Option Mark) (event : StoredEvent) : Option Mark :=
  if event.threadId = some id ∧ id ≠ "" then hear event.payload mark else mark

theorem awaiting_onEvent (hok : w.drainer.Ok) (event : StoredEvent) :
    (w.onEvent event).drainer.Ok ∧ (w.onEvent event).drainer.nextMark = w.drainer.nextMark ∧
      ∀ id, (w.onEvent event).drainer.awaiting id = hearEvent id (w.drainer.awaiting id) event := by
  have hinterrupt (w : World) (id : String) (payload : ServerPayload) :
      (w.interruptOn id payload).drainer = w.drainer := by
    unfold interruptOn
    split <;> rfl
  unfold onEvent
  dsimp only
  split
  · rename_i hnone
    refine ⟨hok, rfl, fun id => ?_⟩
    rw [hearEvent, if_neg]
    · rfl
    · rintro ⟨hid, hne⟩
      simp [hid, hne] at hnone
  · rename_i threadId hsome
    obtain ⟨hid, hne⟩ := Option.filter_eq_some_iff.mp hsome
    obtain ⟨hok', hmark, hawaiting⟩ :=
      awaiting_drainOn (w := w.observe (.committed event)) hok threadId event.payload
    rw [hinterrupt]
    refine ⟨hok', hmark, fun id => (hawaiting id).trans ?_⟩
    rw [hearEvent, hid]
    by_cases h : id = threadId
    · subst h
      rw [if_pos rfl, if_pos ⟨rfl, by simpa using hne⟩]
      rfl
    · rw [if_neg h, if_neg fun hboth => h (Option.some.inj hboth.1).symm]
      rfl

theorem awaiting_append {w' : World} {drafts : List EventDraft} {options : AppendOptions} {events : List StoredEvent}
    (hok : w.drainer.Ok) (happ : w.append drafts options = some w')
    (hevents : w.db.append { drafts, options, ts := w.now } = .ok (w'.db, events)) :
    w'.drainer.Ok ∧ w'.drainer.nextMark = w.drainer.nextMark ∧
      ∀ id, w'.drainer.awaiting id = events.foldl (hearEvent id) (w.drainer.awaiting id) := by
  obtain ⟨db, events', hwritten, rfl⟩ := append_eq_some.mp happ
  rw [db_foldl_onEvent] at hevents
  obtain ⟨-, rfl⟩ := Prod.mk.inj (Except.ok.inj (hwritten.symm.trans hevents))
  have hfold (events : List StoredEvent) (w : World) (hok : w.drainer.Ok) : (events.foldl onEvent w).drainer.Ok ∧
        (events.foldl onEvent w).drainer.nextMark = w.drainer.nextMark ∧ ∀ id,
          (events.foldl onEvent w).drainer.awaiting id = events.foldl (hearEvent id) (w.drainer.awaiting id) := by
    induction events generalizing w with
    | nil => exact ⟨hok, rfl, fun _ => rfl⟩
    | cons event events ih =>
      obtain ⟨hok₁, hmark₁, hawaiting₁⟩ := awaiting_onEvent hok event
      obtain ⟨hok₂, hmark₂, hawaiting₂⟩ := ih (w.onEvent event) hok₁
      refine ⟨hok₂, hmark₂.trans hmark₁, fun id => ?_⟩
      rw [List.foldl_cons, List.foldl_cons, hawaiting₂, hawaiting₁]
  exact hfold events' _ hok

/-- What a committed event does to the status of the thread `id`. -/
def statusAfter (id : String) (status : ThreadStatus) (event : StoredEvent) : ThreadStatus :=
  if event.threadId = some id ∧ id ≠ "" then (statusOf event.payload).getD status else status

private theorem status_patched {thread next : ServerThread} {patch : ServerThreadPatch} {at_ : Int}
    (h : thread.patched patch at_ = .ok next) :
    next.status = (statusOf (.threadUpdated patch at_)).getD thread.status ∧ next.id = thread.id := by
  unfold ServerThread.patched at h
  obtain ⟨title, -, h⟩ := Except.bind_eq_ok.mp h
  obtain ⟨titleSource, -, h⟩ := Except.bind_eq_ok.mp h
  obtain ⟨harness, -, h⟩ := Except.bind_eq_ok.mp h
  obtain ⟨status, hstatus, h⟩ := Except.bind_eq_ok.mp h
  obtain ⟨lastActivityAt, -, h⟩ := Except.bind_eq_ok.mp h
  obtain ⟨capabilities, -, h⟩ := Except.bind_eq_ok.mp h
  obtain ⟨terminalId, -, h⟩ := Except.bind_eq_ok.mp h
  cases h
  refine ⟨?_, rfl⟩
  cases hpatch : patch.status <;>
    simp_all [JsField.overColumn, statusOf]

variable {p p' : Projection} {event : StoredEvent} {id : String}

theorem status_applyEvent {status : ThreadStatus} (hstatus : (p.getThread id).map (·.status) = some status)
    (hkept : event.payload.type = .threadDeleted → event.threadId ≠ some id) (happ : p.applyEvent event = .ok p') :
    (p'.getThread id).map (·.status) = some (statusAfter id status event) := by
  have hsame (hno : statusOf event.payload = none) (h : p'.getThread id = p.getThread id) :
      (p'.getThread id).map (·.status) = some (statusAfter id status event) := by
    rw [h, hstatus, statusAfter, hno]
    split_ifs <;> rfl
  -- A thread event moves the status of its own thread only.
  have hrewritten {threadId : String} {thread next : ServerThread}
      (hid : event.threadId = some threadId) (hne : threadId ≠ "")
      (hfind : p.getThread threadId = some thread) (hthread : next.id = thread.id)
      (hnext : next.status = (statusOf event.payload).getD thread.status)
      (h : ∀ id, p'.getThread id = (p.threads.set (threadParams next)).find? id) :
      (p'.getThread id).map (·.status) = some (statusAfter id status event) := by
    have hkey : (threadParams next).id = threadId := hthread.trans (Table.key_of_find? hfind)
    rw [h, Table.find?_set, hkey, statusAfter, hid]
    by_cases heq : threadId = id
    · subst heq
      rw [hfind] at hstatus
      cases hstatus
      rw [if_pos rfl, if_pos ⟨rfl, hne⟩, ← hnext]
      rfl
    · rw [if_neg heq, if_neg fun hboth => heq (Option.some.inj hboth.1)]
      exact hstatus
  cases Projection.applied_of_applyEvent happ with
  | threadUpdated hpay hid hne hfind hnext =>
    obtain ⟨hmoved, hthread⟩ := status_patched hnext
    exact hrewritten hid hne hfind hthread (hpay ▸ hmoved) fun _ => rfl
  | threadShelfChanged hpay hid hne hfind | threadArchived hpay hid hne hfind =>
    refine hrewritten hid hne hfind ?_ ?_ fun _ => rfl
    · rfl
    · rw [hpay]
      rfl
  | @threadCreated thread threads hpay hinsert =>
    refine hsame (by rw [hpay]; rfl) ?_
    show threads.find? id = p.threads.find? id
    rw [Table.find?_insert? hinsert, if_neg]
    rintro rfl
    obtain ⟨old, hold, -⟩ := Option.map_eq_some_iff.mp hstatus
    obtain ⟨hmem, hkey⟩ := Table.find?_eq_some_iff.mp hold
    exact (Table.insert?_eq_some_iff.mp hinsert).1 (List.mem_map.mpr ⟨old, hmem, hkey⟩)
  | @threadDeleted _ threadId hpay hid =>
    refine hsame (by rw [hpay]; rfl) ?_
    obtain ⟨old, hold, -⟩ := Option.map_eq_some_iff.mp hstatus
    show (p.threads.filter (·.id ≠ threadId)).find? id = _
    rw [Table.find?_filter]
    refine (congrArg (Option.filter _) hold).trans ((Option.filter_some_pos ?_).trans hold.symm)
    have hother := hkept (by rw [hpay]; rfl)
    rw [hid] at hother
    have hne : old.id ≠ threadId := by
      rw [Table.key_of_find? hold]
      rintro rfl
      exact hother rfl
    simpa using hne
  | notice hpay =>
    refine hsame ?_ rfl
    cases hpayload : event.payload <;> simp [hpayload, Payload.type, statusOf] at hpay ⊢
  | _ => exact hsame (by simp [*, statusOf]) rfl

theorem isSome_of_statusOf (hid : event.threadId = some id) (hstatus : (statusOf event.payload).isSome = true)
    (happ : p.applyEvent event = .ok p') : (p.getThread id).isSome = true := by
  unfold Projection.applyEvent at happ
  cases hpay : event.payload with
  | threadUpdated patch at_ =>
    simp only [hpay, rewriteThread_eq_ok] at happ
    obtain ⟨threadId, thread, next, hid', -, hfind, -⟩ := happ
    rw [hid] at hid'
    cases hid'
    exact Option.isSome_iff_exists.mpr ⟨thread, hfind⟩
  | _ => simp [hpay, statusOf] at hstatus

end World

end Sightr
