import Sightr.Dispatch.Exclusive
import Sightr.Dispatch.Marks

/-!
# The drainer waits for the run of a message

After a message went out the drainer sends no queued row until the run it began is over, or
`RUN_WAIT_MS` went by without one. It remembers one message per thread: a send that begins takes the
place of the one remembered. Where no mode or model switch, no archive and no send that then fails takes
the place of a message still waited for, every queued row waits.
-/

namespace Sightr

open Projection

/-! ### Messages -/

/-- A message that was handed to the sender, and what became of it. -/
structure Sent where
  mark : Nat
  sawWorking : Bool := false
  /-- After that, a settled status or the end of a run was. -/
  runOver : Bool := false
  sentAt : Option Int := none
  deriving DecidableEq

namespace Sent

def hear (payload : ServerPayload) (s : Sent) : Sent :=
  match World.statusOf payload with
  | some status =>
    if status = .working then { s with sawWorking := true }
    else if isSettled status then { s with runOver := s.runOver || s.sawWorking } else s
  | none => if payload.type = .runEnded then { s with runOver := s.runOver || s.sawWorking } else s

/-- What a committed event tells of a message of the thread. -/
def hearEvent (threadId : String) (s : Sent) (event : StoredEvent) : Sent :=
  if event.threadId = some threadId then s.hear event.payload else s

/-- The send was reported sent; the first report counts. -/
def report (mark : Nat) (now : Int) (s : Sent) : Sent :=
  if s.mark = mark then { s with sentAt := s.sentAt <|> some now } else s

/-- The message's run is over, or had its time to show. -/
def settled (now : Int) (s : Sent) : Bool := s.runOver || s.sentAt.any fun at_ => decide (at_ + RUN_WAIT_MS ≤ now)

end Sent

/-- The thread's messages, newest first, less those that came back unsent. -/
def sends (threadId : String) : List Obs → List Sent
  | [] => []
  | .handed mark id _ _ _ :: log =>
    if id = threadId then { mark } :: sends threadId log else sends threadId log
  | .reported mark _ result now :: log =>
    if result.isSent then (sends threadId log).map (·.report mark now)
    else (sends threadId log).filter (·.mark ≠ mark)
  | .committed event :: log => (sends threadId log).map (·.hearEvent threadId event)
  | _ :: log => sends threadId log

def SendPath.isDrained : SendPath → Bool
  | drained _ => true
  | _ => false

/-- Every queued row was handed over once the message before it was settled. -/
def OnePerSettle (threadId : String) : List Obs → Prop
  | [] => True
  | .handed _ id path _ now :: log =>
    (id = threadId → path.isDrained = true → ∀ s ∈ (sends threadId log).head?, s.settled now = true) ∧
      OnePerSettle threadId log
  | _ :: log => OnePerSettle threadId log

instance (threadId : String) : ∀ log, Decidable (OnePerSettle threadId log)
  | [] => inferInstanceAs (Decidable True)
  | obs :: log =>
    have := instDecidableOnePerSettle threadId log
    match obs with
    | .handed _ id path _ now => inferInstanceAs (Decidable ((id = threadId → path.isDrained = true →
        ∀ s ∈ (sends threadId log).head?, s.settled now = true) ∧ OnePerSettle threadId log))
    | .committed _ | .accepted .. | .cancelled _ | .reported .. | .pressed .. | .answered .. =>
      inferInstanceAs (Decidable (OnePerSettle threadId log))

def Obs.isQuiet : Obs → Bool
  | .handed .. | .reported .. => false
  | .committed event => isOwn event.payload
  | _ => true

variable {payload : ServerPayload}

theorem Sent.hear_of_isOwn (h : isOwn payload = true) (s : Sent) : s.hear payload = s := by
  unfold Sent.hear
  cases payload with
  | threadUpdated patch at_ =>
    have hstatus : patch.status = .absent := by simpa [isOwn] using h
    simp [World.statusOf, hstatus, Payload.type]
  | queueUpdated | turnItemUpdated | dispatchFailed => simp [World.statusOf, Payload.type]
  | _ => simp [isOwn] at h

variable {event : StoredEvent}

theorem Sent.hearEvent_of_isOwn (h : isOwn event.payload = true) (threadId : String) (s : Sent) :
    s.hearEvent threadId event = s := by
  rw [hearEvent, hear_of_isOwn h, ite_self]

theorem sends_quiet {threadId : String} {before log : List Obs} (h : ∀ obs ∈ before, obs.isQuiet = true) :
    sends threadId (before ++ log) = sends threadId log ∧
      (OnePerSettle threadId log → OnePerSettle threadId (before ++ log)) := by
  induction before with
  | nil => exact ⟨rfl, id⟩
  | cons obs before ih =>
    obtain ⟨hsends, hone⟩ := ih fun o ho => h o (List.mem_cons_of_mem _ ho)
    have hquiet := h obs List.mem_cons_self
    cases obs with
    | handed | reported => cases hquiet
    | committed event =>
      refine ⟨?_, hone⟩
      rw [List.cons_append, sends, hsends, funext (Sent.hearEvent_of_isOwn hquiet threadId)]
      exact List.map_id _
    | accepted | cancelled | pressed | answered => exact ⟨hsends, hone⟩

theorem sends_committed (threadId : String) (events : List StoredEvent) (log : List Obs) :
    sends threadId ((events.map .committed).reverse ++ log) =
      (sends threadId log).map fun s => events.foldl (Sent.hearEvent threadId) s := by
  induction events generalizing log with
  | nil => simp
  | cons event events ih =>
    rw [List.map_cons, List.reverse_cons, List.append_assoc, List.singleton_append, ih, sends, List.map_map]
    rfl

variable {threadId : String} {log : List Obs}

theorem onePerSettle_committed (h : OnePerSettle threadId log) (events : List StoredEvent) :
    OnePerSettle threadId ((events.map .committed).reverse ++ log) := by
  induction events generalizing log with
  | nil => exact h
  | cons event events ih =>
    rw [List.map_cons, List.reverse_cons, List.append_assoc, List.singleton_append]
    exact ih h

/-! ### What an event tells -/

@[simp] theorem Sent.mark_hearEvent (threadId : String) (s : Sent) (event : StoredEvent) :
    (s.hearEvent threadId event).mark = s.mark := by
  unfold hearEvent
  split
  · unfold hear
    split <;> split_ifs <;> rfl
  · rfl

@[simp] theorem Sent.sentAt_hearEvent (threadId : String) (s : Sent) (event : StoredEvent) :
    (s.hearEvent threadId event).sentAt = s.sentAt := by
  unfold hearEvent
  split
  · unfold hear
    split <;> split_ifs <;> rfl
  · rfl

@[simp] theorem Sent.mark_foldl (threadId : String) (events : List StoredEvent) (s : Sent) :
    (events.foldl (Sent.hearEvent threadId) s).mark = s.mark := by
  induction events generalizing s with
  | nil => rfl
  | cons event events ih => rw [List.foldl_cons, ih, mark_hearEvent]

@[simp] theorem Sent.sentAt_foldl (threadId : String) (events : List StoredEvent) (s : Sent) :
    (events.foldl (Sent.hearEvent threadId) s).sentAt = s.sentAt := by
  induction events generalizing s with
  | nil => rfl
  | cons event events ih => rw [List.foldl_cons, ih, sentAt_hearEvent]

def Sent.Covered (s : Sent) (mark : Option Mark) (now : Int) : Prop :=
  s.settled now = true ∨ ∃ m, mark = some m ∧ m.id = s.mark ∧ (m.sawWorking = true → s.sawWorking = true) ∧
    ∀ due ∈ m.due, ∃ at_ ∈ s.sentAt, at_ + RUN_WAIT_MS ≤ due

variable {s : Sent} {now now' : Int}

theorem Sent.settled_mono (hnow : now ≤ now') (h : s.settled now = true) : s.settled now' = true := by
  simp only [settled, Bool.or_eq_true, Option.any_eq_true, decide_eq_true_eq] at h ⊢
  exact h.imp_right fun ⟨at_, hat, hle⟩ => ⟨at_, hat, hle.trans hnow⟩

theorem Sent.over_hear (payload : ServerPayload) (h : s.runOver = true) : (s.hear payload).runOver = true := by
  unfold hear
  split <;> split_ifs <;> simp [h]

theorem Sent.sawWorking_hear (payload : ServerPayload) (h : s.sawWorking = true) :
    (s.hear payload).sawWorking = true := by
  unfold hear
  split <;> split_ifs <;> simp [h]

variable {mark : Option Mark}

theorem Sent.Covered.later (h : s.Covered mark now) (hnow : now ≤ now') :
    s.Covered mark now' := h.imp_left (Sent.settled_mono hnow)

theorem Sent.settled_hearEvent (threadId : String) (event : StoredEvent) (h : s.settled now = true) :
    (s.hearEvent threadId event).settled now = true := by
  simp only [settled, sentAt_hearEvent, Bool.or_eq_true] at h ⊢
  refine h.imp_left fun hover => ?_
  unfold hearEvent
  split
  · exact over_hear _ hover
  · exact hover

variable {m : Mark}

theorem covered_hear (hnot : payload.type ≠ .threadArchived) (hid : m.id = s.mark)
    (hsaw : m.sawWorking = true → s.sawWorking = true)
    (hdue : ∀ due ∈ m.due, ∃ at_ ∈ s.sentAt, at_ + RUN_WAIT_MS ≤ due) :
    (s.hear payload).Covered (Drainer.hear payload (some m)) now := by
  unfold Sent.hear Drainer.hear
  cases World.statusOf payload with
  | none =>
    dsimp only
    rw [if_neg hnot]
    by_cases hended : payload.type = .runEnded
    · rw [if_pos hended]
      by_cases hm : m.sawWorking = true
      · exact .inl (by simp [Sent.settled, hsaw hm])
      · exact .inr ⟨m, by simp [hm], hid, hsaw, hdue⟩
    · rw [if_neg hended]
      exact .inr ⟨m, by simp [hended], hid, hsaw, hdue⟩
  | some status =>
    dsimp only
    by_cases hworking : status = .working
    · rw [if_pos hworking, if_pos hworking]
      exact .inr ⟨{ m with sawWorking := true }, rfl, hid, fun _ => rfl, hdue⟩
    · rw [if_neg hworking, if_neg hworking]
      by_cases hsettled : isSettled status = true
      · rw [if_pos hsettled]
        by_cases hm : m.sawWorking = true
        · exact .inl (by simp [Sent.settled, hsaw hm])
        · exact .inr ⟨m, by simp [hm], hid, hsaw, hdue⟩
      · rw [if_neg hsettled]
        exact .inr ⟨m, by simp [hsettled], hid, hsaw, hdue⟩

theorem Sent.Covered.hearEvent (h : s.Covered mark now)
    (hkept : event.payload.type = .threadArchived → event.threadId ≠ some threadId) :
    (s.hearEvent threadId event).Covered (World.hearEvent threadId mark event) now := by
  rcases h with h | ⟨m, rfl, hid, hsaw, hdue⟩
  · exact .inl (settled_hearEvent threadId event h)
  · unfold Sent.hearEvent World.hearEvent
    by_cases hthread : event.threadId = some threadId
    · rw [if_pos hthread]
      by_cases hne : threadId = ""
      · rw [if_neg fun hboth => hboth.2 hne]
        refine .inr ⟨m, rfl, ?_, fun hm => sawWorking_hear _ (hsaw hm), ?_⟩
        · simpa [Sent.hearEvent, hthread] using hid.trans (s.mark_hearEvent threadId event).symm
        · have hsent := s.sentAt_hearEvent threadId event
          rw [Sent.hearEvent, if_pos hthread] at hsent
          rwa [hsent]
      · rw [if_pos ⟨hthread, hne⟩]
        exact covered_hear (fun htype => hkept htype hthread) hid hsaw hdue
    · rw [if_neg hthread, if_neg fun hboth => hthread hboth.1]
      exact .inr ⟨m, rfl, hid, hsaw, hdue⟩

variable {events : List StoredEvent}

theorem Sent.Covered.foldl (h : s.Covered mark now)
    (hkept : mark = none ∨ ∀ event ∈ events, event.payload.type = .threadArchived → event.threadId ≠ some threadId) :
    (events.foldl (Sent.hearEvent threadId) s).Covered (events.foldl (World.hearEvent threadId) mark) now := by
  by_cases hsettled : s.settled now = true
  · refine .inl ?_
    clear h hkept
    induction events generalizing s with
    | nil => exact hsettled
    | cons event events ih => exact ih (settled_hearEvent threadId event hsettled)
  · have hevents : ∀ event ∈ events, event.payload.type = .threadArchived → event.threadId ≠ some threadId := by
      refine hkept.resolve_left ?_
      rintro rfl
      rcases h with h | ⟨m, hm, -⟩
      · exact hsettled h
      · cases hm
    clear hkept hsettled
    induction events generalizing s mark with
    | nil => exact h
    | cons event events ih =>
      exact ih (h.hearEvent (hevents event List.mem_cons_self)) fun e he => hevents e (List.mem_cons_of_mem _ he)

/-- The wait saw a status `working` only where the thread is there and still busy. -/
def LiveWait (threadId : String) (mark : Option Mark) (p : Projection) : Prop :=
  ∀ m ∈ mark, m.sawWorking = true →
    ∃ status, (p.getThread threadId).map (·.status) = some status ∧ isSettled status = false

theorem liveWait_applyEvent {p p' : Projection} (h : LiveWait threadId mark p)
    (hkept : event.payload.type = .threadDeleted → event.threadId ≠ some threadId)
    (happ : p.applyEvent event = .ok p') :
    LiveWait threadId (World.hearEvent threadId mark event) p' := by
  intro m hm hsaw
  cases hthread : p.getThread threadId with
  | none =>
    -- No wait saw anything yet, and no status is set.
    exfalso
    have hnot : ∀ m ∈ mark, m.sawWorking = false := by
      intro m₀ hm₀
      by_contra hsaw₀
      obtain ⟨status, hstatus, -⟩ := h m₀ hm₀ (by simpa using hsaw₀)
      rw [hthread] at hstatus
      cases hstatus
    unfold World.hearEvent at hm
    split_ifs at hm with hid
    · unfold Drainer.hear at hm
      cases hstatus : World.statusOf event.payload with
      | some status =>
        have hsome := World.isSome_of_statusOf hid.1 (by simp [hstatus]) happ
        simp [hthread] at hsome
      | none =>
        rw [hstatus] at hm
        dsimp only at hm
        split_ifs at hm
        · cases hm
        · cases hm
        · exact absurd hsaw (by simp [hnot m hm])
    · exact absurd hsaw (by simp [hnot m hm])
  | some thread =>
    have hold : ∀ m ∈ mark, m.sawWorking = true → isSettled thread.status = false := by
      intro m₀ hm₀ hsaw₀
      obtain ⟨status, hstatus, hbusy⟩ := h m₀ hm₀ hsaw₀
      rw [hthread] at hstatus
      cases hstatus
      exact hbusy
    refine ⟨_, World.status_applyEvent (by rw [hthread]; rfl) hkept happ, ?_⟩
    unfold World.hearEvent at hm
    unfold World.statusAfter
    split_ifs at hm ⊢ with hid
    · unfold Drainer.hear at hm
      cases hstatus : World.statusOf event.payload with
      | none =>
        rw [hstatus] at hm
        dsimp only at hm
        split_ifs at hm
        · cases hm
        · cases hm
        · exact hold m hm hsaw
      | some next =>
        rw [hstatus] at hm
        dsimp only at hm
        by_cases hworking : next = .working
        · simp [hworking, isSettled]
        · rw [if_neg hworking] at hm
          by_cases hsettled : isSettled next = true
          · split_ifs at hm with hany
            · cases hm
            · rw [Option.mem_def] at hm
              simp [hsettled, hm, hsaw] at hany
          · simpa using hsettled
    · exact hold m hm hsaw

variable {db : Db}

theorem liveWait_append {db' : Db} {batch : Batch} (h : LiveWait threadId mark db.projection)
    (hkept : ∀ draft ∈ batch.drafts, draft.payload.type = .threadDeleted → draft.threadId ≠ some threadId)
    (happ : db.append batch = .ok (db', events)) :
    LiveWait threadId (events.foldl (World.hearEvent threadId) mark) db'.projection := by
  obtain ⟨m, hm, hsame⟩ := Db.append_eq_ok happ
  rw [hsame.projection]
  refine Fold.traceM_invariant (w := []) (P := fun (db : Db) (sofar : List StoredEvent) =>
      LiveWait threadId (sofar.foldl (World.hearEvent threadId) mark) db.projection)
    (C := fun _ raw => raw.payload.type = .threadDeleted → raw.threadId ≠ some threadId) ?_ h
    (Fold.along_of_forall fun _ raw hraw => hkept raw hraw) hm
  intro db sofar raw db' event hdb hraw hwrite
  obtain ⟨rfl, hp, -⟩ := Db.writeDraft_projection hwrite
  rw [List.foldl_append]
  refine liveWait_applyEvent hdb (fun htype => ?_) hp
  rw [Db.type_stamp] at htype
  rw [Db.threadId_stamp]
  exact hraw htype

theorem exists_of_hearEvents (h : events.foldl (World.hearEvent threadId) mark = some m) :
    ∃ m₀, mark = some m₀ ∧ m₀.id = m.id := by
  induction events generalizing mark with
  | nil => exact ⟨m, h, rfl⟩
  | cons event events ih =>
    obtain ⟨m₁, h₁, hid⟩ := ih h
    unfold World.hearEvent at h₁
    split_ifs at h₁
    · unfold Drainer.hear at h₁
      cases hmark : mark with
      | none =>
        rw [hmark] at h₁
        split at h₁ <;> simp at h₁
      | some m₀ =>
        rw [hmark] at h₁
        refine ⟨m₀, rfl, ?_⟩
        rw [← hid]
        split at h₁ <;> split_ifs at h₁ <;> cases h₁ <;> rfl
    · exact ⟨m₁, h₁, hid⟩

/-! ### What a send tells -/

variable {path : SendPath}

theorem mem_sends_handed {id : String} {mark : Nat} (h : s ∈ sends threadId (.handed mark id path db now :: log)) :
    s = { mark } ∨ s ∈ sends threadId log := by
  rw [sends] at h
  split_ifs at h
  · exact List.mem_cons.mp h
  · exact .inr h

theorem mem_sends_reported {mark : Nat} {result : DeliverResult}
    (h : s ∈ sends threadId (.reported mark path result now :: log)) :
    ∃ s₀ ∈ sends threadId log, s₀.mark = s.mark ∧ ∀ at_ ∈ s.sentAt, at_ ∈ s₀.sentAt ∨ at_ = now := by
  rw [sends] at h
  split_ifs at h
  · obtain ⟨s₀, hs₀, rfl⟩ := List.mem_map.mp h
    refine ⟨s₀, hs₀, ?_⟩
    unfold Sent.report
    split_ifs
    · refine ⟨rfl, fun at_ hat => ?_⟩
      cases hsent : s₀.sentAt with
      | none => exact .inr (by simpa [hsent, eq_comm] using hat)
      | some at₀ => exact .inl (by simpa [hsent] using hat)
    · exact ⟨rfl, fun at_ hat => .inl hat⟩
  · exact ⟨s, List.mem_of_mem_filter h, rfl, fun at_ hat => .inl hat⟩

theorem Sent.Covered.report (mark : Nat) (hid : m.id = s.mark) (hsaw : m.sawWorking = true → s.sawWorking = true)
    (hdue : ∀ due ∈ m.due, ∃ at_ ∈ (s.report mark now).sentAt, at_ + RUN_WAIT_MS ≤ due) :
    (s.report mark now).Covered (some m) now := by
  refine .inr ⟨m, rfl, ?_, ?_, hdue⟩ <;>
  · unfold Sent.report
    split_ifs <;> assumption

theorem Sent.sentAt_report (mark : Nat) (now : Int) {at_ : Int} (h : at_ ∈ s.sentAt) :
    at_ ∈ (s.report mark now).sentAt := by
  unfold report
  split_ifs
  · simp [Option.mem_def.mp h]
  · exact h

theorem Sent.report_sent {mark : Nat} (hmark : s.mark = mark) (h : ∀ at_ ∈ s.sentAt, at_ ≤ now) :
    ∃ at_ ∈ (s.report mark now).sentAt, at_ + RUN_WAIT_MS ≤ now + RUN_WAIT_MS := by
  unfold report
  rw [if_pos hmark]
  cases hsent : s.sentAt with
  | none => exact ⟨now, by simp, le_rfl⟩
  | some at_ => exact ⟨at_, by simp, by simpa using h at_ hsent⟩

theorem Sent.settled_report (mark : Nat) (h : s.settled now = true) : (s.report mark now).settled now = true := by
  unfold report
  split_ifs
  · cases hsent : s.sentAt <;> simp_all [settled]
  · exact h

/-! ### What a step may do -/

/-- A send or a switch of the thread `id` waits under the mark. -/
def Task.Began (task : Task) (id : String) (mark : Nat) : Prop :=
  (∃ path ref, task.sending = some (id, path, ref, mark)) ∨ ∃ ref, task.switching = some (id, ref, mark)

theorem Task.not_began_of_isDeferred {task : Task} (h : task.isDeferred = true) (id : String)
    (mark : Nat) : ¬ task.Began id mark := by
  cases task with
  | schedule | holdClosed => rintro (⟨_, _, ⟨⟩⟩ | ⟨_, ⟨⟩⟩)
  | _ => cases h

namespace World

/-- The action makes the drainer forget a message of the thread that it still waits for. -/
def forgetsWait (threadId : String) (w : World) : Action → Bool
  -- A mode or model switch takes its place.
  | .command c ctx newId =>
    w.beginsSwitch (.command c ctx newId) = some threadId && (w.drainer.awaiting threadId).isSome
  -- The thread is archived, or deleted.
  | .environment drafts _ =>
    (w.drainer.awaiting threadId).isSome && drafts.any fun draft =>
      draft.threadId = some threadId &&
        (draft.payload.type = .threadArchived || draft.payload.type = .threadDeleted)
  -- A later message took its place, and comes back unsent.
  | .resume i answer _ =>
    !answer.isSent && (w.tasks[i]?.bind (·.sending)).any fun (id, _, _, mark) =>
      id = threadId && ((sends threadId w.log).filter (·.mark ≠ mark)).head?.any (!·.settled w.now)
  | _ => false

end World

namespace Turn

open World

structure Waits (threadId : String) (w : World) (tasks : List Task) : Prop where
  ok : w.drainer.Ok
  marks : ∀ id m, w.drainer.awaiting id = some m → m.id < w.drainer.nextMark
  known : ∀ s ∈ sends threadId w.log, s.mark < w.drainer.nextMark ∧ ∀ at_ ∈ s.sentAt, at_ ≤ w.now
  /-- A task's mark is its own: the drainer waits under it for the task's thread only, and a message
  under it is the task's. -/
  begun : ∀ task ∈ tasks, ∀ id mark, task.Began id mark → mark < w.drainer.nextMark ∧
    (∀ id' m, w.drainer.awaiting id' = some m → m.id = mark → id' = id) ∧
    ∀ s ∈ sends threadId w.log, s.mark = mark → id = threadId ∧ task.switching = none
  covered : ∀ s ∈ (sends threadId w.log).head?, s.Covered (w.drainer.awaiting threadId) w.now
  live : LiveWait threadId (w.drainer.awaiting threadId) w.db.projection
  apart : OnePerSettle threadId w.log

structure Still (threadId : String) (w w' : World) : Prop where
  drainer : w.drainer.Quiet w'.drainer
  now : w.now ≤ w'.now
  log : ∃ before, w'.log = before ++ w.log ∧ ∀ obs ∈ before, obs.isQuiet = true
  status : (w'.getThread threadId).map (·.status) = (w.getThread threadId).map (·.status)

variable {threadId : String} {w w' : World} {tasks tasks' : List Task}

theorem Waits.still (h : Waits threadId w tasks) (hstill : Still threadId w w')
    (htasks : ∀ task ∈ tasks', task ∈ tasks ∨ ∀ id mark, ¬ task.Began id mark) :
    Waits threadId w' tasks' := by
  obtain ⟨before, hlog, hquiet⟩ := hstill.log
  obtain ⟨hsends, happart⟩ := @sends_quiet threadId before w.log hquiet
  rw [← hlog] at hsends happart
  have hdrainer := hstill.drainer h.ok
  refine ⟨hdrainer.ok, ?_, ?_, ?_, ?_, ?_, happart h.apart⟩
  · simpa only [hdrainer.awaiting, hdrainer.nextMark] using h.marks
  · rw [hsends, hdrainer.nextMark]
    exact fun s hs => ⟨(h.known s hs).1, fun at_ hat => ((h.known s hs).2 at_ hat).trans hstill.now⟩
  · rw [hsends, hdrainer.nextMark]
    simp only [hdrainer.awaiting]
    intro task htask id mark hbegan
    rcases htasks task htask with hold | hnot
    · exact h.begun task hold id mark hbegan
    · exact absurd hbegan (hnot id mark)
  · rw [hsends, hdrainer.awaiting]
    exact fun s hs => (h.covered s hs).later hstill.now
  · intro m hm hsaw
    rw [hdrainer.awaiting] at hm
    obtain ⟨status, hstatus, hbusy⟩ := h.live m hm hsaw
    exact ⟨status, hstill.status.trans hstatus, hbusy⟩

/-! ### Sends -/

section

variable {threadId owner : String}

section

variable {tasks : List Task}

/-- A send or a switch begins: the drainer waits for the thread under a mark of its own. -/
private theorem Waits.begins {w w' : World} {new : Task}
    (h : Waits threadId w tasks) (hok : w'.drainer.Ok) (hmark : w'.drainer.nextMark = w.drainer.nextMark + 1)
    (hawaiting : ∀ id, w'.drainer.awaiting id =
      if id = owner then some { id := w.drainer.nextMark } else w.drainer.awaiting id)
    (hdb : w'.db = w.db) (hnow : w'.now = w.now)
    (hnew : ∀ id mark, new.Began id mark → id = owner ∧ mark = w.drainer.nextMark)
    (hsends : ∀ s ∈ sends threadId w'.log, s ∈ sends threadId w.log ∨
      s = { mark := w.drainer.nextMark } ∧ owner = threadId ∧ new.switching = none)
    (hcovered : ∀ s ∈ (sends threadId w'.log).head?, s.Covered (w'.drainer.awaiting threadId) w'.now)
    (hapart : OnePerSettle threadId w'.log) : Waits threadId w' (tasks ++ [new]) := by
  have hwaited (id : String) (m : Mark) (hm : w'.drainer.awaiting id = some m) :
      id = owner ∧ m = { id := w.drainer.nextMark } ∨ w.drainer.awaiting id = some m := by
    rw [hawaiting] at hm
    split_ifs at hm with hid
    · exact .inl ⟨hid, (Option.some.inj hm).symm⟩
    · exact .inr hm
  refine ⟨hok, fun id m hm => ?_, fun s hs => ?_, fun task htask id mark hbegan => ?_, hcovered,
    fun m hm hsaw => ?_, hapart⟩
  · rw [hmark]
    rcases hwaited id m hm with ⟨-, rfl⟩ | hold
    · exact Nat.lt_succ_self _
    · exact (h.marks id m hold).trans (Nat.lt_succ_self _)
  · rw [hmark, hnow]
    rcases hsends s hs with hold | ⟨rfl, -⟩
    · exact ⟨(h.known s hold).1.trans (Nat.lt_succ_self _), (h.known s hold).2⟩
    · exact ⟨Nat.lt_succ_self _, by simp⟩
  · rw [hmark]
    rcases List.mem_append.mp htask with hold | hlast
    · obtain ⟨hlt, howner, hsent⟩ := h.begun task hold id mark hbegan
      refine ⟨hlt.trans (Nat.lt_succ_self _), fun id' m hm hid => ?_, fun s hs hid => ?_⟩
      · rcases hwaited id' m hm with ⟨-, rfl⟩ | hm
        · exact absurd hid hlt.ne'
        · exact howner id' m hm hid
      · rcases hsends s hs with hs | ⟨rfl, -⟩
        · exact hsent s hs hid
        · exact absurd hid hlt.ne'
    · obtain rfl := List.mem_singleton.mp hlast
      obtain ⟨rfl, rfl⟩ := hnew id mark hbegan
      refine ⟨Nat.lt_succ_self _, fun id' m hm hid => ?_, fun s hs hid => ?_⟩
      · rcases hwaited id' m hm with ⟨hid', -⟩ | hm
        · exact hid'
        · exact absurd hid (h.marks id' m hm).ne
      · rcases hsends s hs with hs | ⟨-, hown⟩
        · exact absurd hid (h.known s hs).1.ne
        · exact hown
  · rcases hwaited threadId m hm with ⟨-, rfl⟩ | hm
    · cases hsaw
    · exact hdb.symm ▸ h.live m hm hsaw

private theorem Waits.send {w : World} {path : SendPath} {task : Nat → Nat → Task} (h : Waits threadId w tasks)
    (hsending : ∀ ref mark, (task ref mark).sending = some (owner, path, ref, mark))
    (hfree : owner = threadId → path.isDrained = true → w.drainer.awaiting threadId = none) :
    ∃ new, (w.send owner path task).tasks = w.tasks ++ [new] ∧
      Waits threadId (w.send owner path task) (tasks ++ [new]) := by
  obtain ⟨d, ref, hbegin, hok, hmark, hawaiting⟩ := Drainer.beginSend_spec h.ok owner
  have hsend : w.send owner path task =
      ({ w with drainer := d }.observe (.handed w.drainer.nextMark owner path w.db w.now)).spawn
        (task ref w.drainer.nextMark) := by
    unfold World.send
    rw [hbegin]
  have hswitching (ref mark : Nat) : (task ref mark).switching = none := by
    have hs := hsending ref mark
    cases htask : task ref mark <;> rw [htask] at hs <;> first | rfl | cases hs
  rw [hsend]
  refine ⟨_, rfl, h.begins hok hmark hawaiting rfl rfl (fun id mark hbegan => ?_) (fun s hs => ?_)
    (fun s hs => ?_) ⟨fun hid hdrained s hs => ?_, h.apart⟩⟩
  · rcases hbegan with ⟨path', ref', hs⟩ | ⟨ref', hs⟩
    · rw [hsending] at hs
      cases hs
      exact ⟨rfl, rfl⟩
    · rw [hswitching] at hs
      cases hs
  · by_cases hid : owner = threadId
    · exact (mem_sends_handed hs).symm.imp_right fun hnew => ⟨hnew, hid, hswitching _ _⟩
    · exact .inl (by simpa [spawn, observe, sends, hid] using hs)
  · show s.Covered (d.awaiting threadId) w.now
    rw [hawaiting]
    by_cases hid : owner = threadId
    · have hnew : s = { mark := w.drainer.nextMark } := by
        simpa [spawn, observe, sends, hid, eq_comm] using hs
      rw [if_pos hid.symm, hnew]
      exact .inr ⟨_, rfl, rfl, by simp, by simp⟩
    · rw [if_neg (Ne.symm hid)]
      refine h.covered s ?_
      simpa [spawn, observe, sends, hid] using hs
  · rcases h.covered s hs with hsettled | ⟨m, hm, -⟩
    · exact hsettled
    · rw [hfree hid hdrained] at hm
      cases hm

private theorem Waits.sendBack {w : World} {path : SendPath}
    {task : Task} {ref mark : Nat} (result : DeliverResult) (h : Waits threadId w (task :: tasks))
    (hsending : task.sending = some (owner, path, ref, mark))
    (hkept : owner = threadId → result.isSent = false →
      ∀ s ∈ ((sends threadId w.log).filter (·.mark ≠ mark)).head?, s.settled w.now = true) :
    Waits threadId (w.sendBack owner path ref mark result) tasks := by
  obtain ⟨hlt, howner, hsent⟩ := h.begun task List.mem_cons_self owner mark (.inl ⟨path, ref, hsending⟩)
  set status := ((w.getThread owner).map (·.status)).getD .idle with hstatus
  obtain ⟨hok, hmark, hawaiting⟩ := @Drainer.finishSend_spec _ h.ok ref mark result.isSent status w.now
  set d := w.drainer.finishSend ref mark result.isSent status w.now
  have hback : w.sendBack owner path ref mark result =
    { w with drainer := d }.observe (.reported mark path result w.now) := rfl
  have hfrom (id : String) (m : Mark) (hm : d.awaiting id = some m) : ∃ m₀,
      w.drainer.awaiting id = some m₀ ∧ m₀.id = m.id ∧ m₀.sawWorking = m.sawWorking := by
    rcases hawaiting id with hsame | ⟨m₀, hm₀, -, hnew⟩
    · exact ⟨m, hsame ▸ hm, rfl, rfl⟩
    · rw [hnew] at hm
      split_ifs at hm
      cases hm
      exact ⟨m₀, hm₀, rfl, rfl⟩
  rw [hback]
  refine ⟨hok, fun id m hm => ?_, fun s hs => ?_, fun task' htask' id mark' hbegan => ?_,
    fun s hs => ?_, fun m hm hsaw => ?_, h.apart⟩
  · obtain ⟨m₀, hm₀, hid, -⟩ := hfrom id m hm
    exact hid ▸ hmark.symm ▸ h.marks id m₀ hm₀
  · obtain ⟨s₀, hs₀, hid, hsentAt⟩ := mem_sends_reported hs
    refine ⟨hid ▸ hmark.symm ▸ (h.known s₀ hs₀).1, fun at_ hat => ?_⟩
    rcases hsentAt at_ hat with hold | rfl
    · exact (h.known s₀ hs₀).2 at_ hold
    · exact le_rfl
  · obtain ⟨hlt', howner', hsent'⟩ := h.begun task' (List.mem_cons_of_mem _ htask') id mark' hbegan
    refine ⟨hmark.symm ▸ hlt', fun id' m hm hid => ?_, fun s hs hid => ?_⟩
    · obtain ⟨m₀, hm₀, hid₀, -⟩ := hfrom id' m hm
      exact howner' id' m₀ hm₀ (hid₀.trans hid)
    · obtain ⟨s₀, hs₀, hid₀, -⟩ := mem_sends_reported hs
      exact hsent' s₀ hs₀ (hid₀.trans hid)
  · change s ∈ (sends threadId (.reported mark path result w.now :: w.log)).head? at hs
    show s.Covered (d.awaiting threadId) w.now
    rw [sends] at hs
    by_cases hissent : result.isSent = true
    · rw [if_pos hissent, List.head?_map] at hs
      obtain ⟨s₀, hs₀, rfl⟩ := Option.map_eq_some_iff.mp hs
      rcases h.covered s₀ hs₀ with hsettled | ⟨m, hm, hid, hsaw, hdue⟩
      · exact .inl (Sent.settled_report mark hsettled)
      · -- Either the wait is as it was, or it is this message's and now has its timer.
        have hold (due : Int) (hd : due ∈ m.due) :
            ∃ at_ ∈ (s₀.report mark w.now).sentAt, at_ + RUN_WAIT_MS ≤ due := by
          obtain ⟨at_, hat, hle⟩ := hdue due hd
          exact ⟨at_, s₀.sentAt_report mark w.now hat, hle⟩
        rcases hawaiting threadId with hsame | ⟨m', hm', hid', hnew⟩
        · rw [hsame, hm]
          exact .report mark hid hsaw hold
        · obtain rfl : m' = m := Option.some.inj (hm'.symm.trans hm)
          obtain rfl := howner threadId m' hm' hid'
          have hbusy : (!result.isSent || m'.sawWorking && isSettled status) = false := by
            by_cases hworking : m'.sawWorking = true
            · obtain ⟨live, hlive, hnot⟩ := h.live m' hm' hworking
              have hlive' : (w.getThread threadId).map (·.status) = some live := hlive
              simp [hissent, hstatus, hlive', hnot]
            · simp [hissent, hworking]
          rw [hnew, hbusy]
          refine .report mark (m := { m' with due := some (w.now + RUN_WAIT_MS) }) hid hsaw fun due hd => ?_
          cases hd
          exact s₀.report_sent (hid.symm.trans hid') (h.known s₀ (List.mem_of_mem_head? hs₀)).2
    · rw [if_neg hissent] at hs
      by_cases hfirst : ∃ s₀ ∈ (sends threadId w.log).head?, s₀.mark = mark
      · obtain ⟨s₀, hs₀, hid⟩ := hfirst
        obtain ⟨rfl, -⟩ := hsent s₀ (List.mem_of_mem_head? hs₀) hid
        exact .inl (hkept rfl (by simpa using hissent) s hs)
      · have hhead : s ∈ (sends threadId w.log).head? ∧ s.mark ≠ mark := by
          cases hsends : sends threadId w.log with
          | nil => simp [hsends] at hs
          | cons s₀ rest =>
            have hne : s₀.mark ≠ mark := fun hid => hfirst ⟨s₀, by simp [hsends], hid⟩
            have hs₀ : s₀ = s := by simpa [hsends, hne] using hs
            exact ⟨by simp [hs₀], hs₀ ▸ hne⟩
        rcases h.covered s hhead.1 with hsettled | ⟨m, hm, hid, hrest⟩
        · exact .inl hsettled
        · rcases hawaiting threadId with hsame | ⟨m', hm', hid', -⟩
          · exact .inr ⟨m, hsame.trans hm, hid, hrest⟩
          · obtain rfl : m' = m := Option.some.inj (hm'.symm.trans hm)
            exact absurd (hid.symm.trans hid') hhead.2
  · obtain ⟨m₀, hm₀, -, hsaw₀⟩ := hfrom threadId m hm
    exact h.live m₀ hm₀ (hsaw₀.trans hsaw)

private theorem Waits.endSwitch {w : World} {task : Task} {ref mark : Nat} (h : Waits threadId w (task :: tasks))
    (hswitching : task.switching = some (owner, ref, mark)) :
    Waits threadId (w.endSwitch owner ref mark) tasks := by
  obtain ⟨hlt, howner, hsent⟩ := h.begun task List.mem_cons_self owner mark (.inr ⟨ref, hswitching⟩)
  set status := ((w.getThread owner).map (·.status)).getD .idle
  obtain ⟨hok, hmark, hawaiting⟩ := @Drainer.finishSend_spec _ h.ok ref mark false status w.now
  set d := w.drainer.finishSend ref mark false status w.now
  have hend : w.endSwitch owner ref mark = { w with drainer := d } := rfl
  have hfrom (id : String) (m : Mark) (hm : d.awaiting id = some m) : w.drainer.awaiting id = some m := by
    rcases hawaiting id with hsame | ⟨m₀, -, -, hnew⟩
    · exact hsame ▸ hm
    · rw [hnew] at hm
      simp at hm
  rw [hend]
  refine ⟨hok, fun id m hm => hmark.symm ▸ h.marks id m (hfrom id m hm), fun s hs =>
    ⟨hmark.symm ▸ (h.known s hs).1, (h.known s hs).2⟩, fun task' htask' id mark' hbegan => ?_,
    fun s hs => ?_, fun m hm hsaw => h.live m (hfrom threadId m hm) hsaw, h.apart⟩
  · obtain ⟨hlt', howner', hsent'⟩ := h.begun task' (List.mem_cons_of_mem _ htask') id mark' hbegan
    exact ⟨hmark.symm ▸ hlt', fun id' m hm hid => howner' id' m (hfrom id' m hm) hid, hsent'⟩
  · rcases h.covered s hs with hsettled | ⟨m, hm, hid, hrest⟩
    · exact .inl hsettled
    · rcases hawaiting threadId with hsame | ⟨m', hm', hid', -⟩
      · exact .inr ⟨m, hsame.trans hm, hid, hrest⟩
      · -- The wait would be the switch's own, and a message under its mark.
        obtain rfl : m' = m := Option.some.inj (hm'.symm.trans hm)
        have hnone := (hsent s (List.mem_of_mem_head? hs) (hid.symm.trans hid')).2
        rw [hswitching] at hnone
        cases hnone

private theorem Waits.beginSwitch {w : World} {task : Nat → Nat → Task} (h : Waits threadId w tasks)
    (hswitching : ∀ ref mark, (task ref mark).switching = some (owner, ref, mark))
    (hfree : owner = threadId → w.drainer.awaiting threadId = none) :
    ∃ new, (w.beginSwitch owner task).tasks = w.tasks ++ [new] ∧
      Waits threadId (w.beginSwitch owner task) (tasks ++ [new]) := by
  obtain ⟨d, ref, hbegin, hok, hmark, hawaiting⟩ := Drainer.beginSend_spec h.ok owner
  have hswitch : w.beginSwitch owner task = { w with drainer := d }.spawn (task ref w.drainer.nextMark) := by
    unfold World.beginSwitch
    rw [hbegin]
  have hsending (ref mark : Nat) : (task ref mark).sending = none := by
    have hs := hswitching ref mark
    cases htask : task ref mark <;> rw [htask] at hs <;> first | rfl | cases hs
  rw [hswitch]
  refine ⟨_, rfl, h.begins hok hmark hawaiting rfl rfl (fun id mark hbegan => ?_)
    (fun s hs => .inl hs) (fun s hs => ?_) h.apart⟩
  · rcases hbegan with ⟨path', ref', hs⟩ | ⟨ref', hs⟩
    · rw [hsending] at hs
      cases hs
    · rw [hswitching] at hs
      cases hs
      exact ⟨rfl, rfl⟩
  · show s.Covered (d.awaiting threadId) w.now
    rw [hawaiting]
    rcases h.covered s hs with hsettled | ⟨m, hm, hrest⟩
    · exact .inl hsettled
    · rw [if_neg]
      · exact .inr ⟨m, hm, hrest⟩
      · rintro rfl
        rw [hfree rfl] at hm
        cases hm

end

end

/-! ### Batches and timers -/

private theorem Waits.append {drafts : List EventDraft} {options : AppendOptions} (h : Waits threadId w tasks)
    (happ : w.append drafts options = some w')
    (hkept : w.drainer.awaiting threadId ≠ none → ∀ draft ∈ drafts, draft.threadId = some threadId →
      draft.payload.type ≠ .threadArchived ∧ draft.payload.type ≠ .threadDeleted)
    (htasks : ∀ task ∈ tasks', task ∈ tasks ∨ ∀ id mark, ¬ task.Began id mark) :
    Waits threadId w' tasks' := by
  obtain ⟨events, hevents, hheard⟩ := heard_append happ
  obtain ⟨hok, hmark, hawaiting⟩ := awaiting_append h.ok happ hevents
  have hsends : sends threadId w'.log =
      (sends threadId w.log).map fun s => events.foldl (Sent.hearEvent threadId) s := by
    rw [hheard.log, sends_committed]
  refine ⟨hok, fun id m hm => ?_, fun s hs => ?_, fun task htask id mark hbegan => ?_,
    fun s hs => ?_, fun m hm hsaw => ?_, hheard.log ▸ onePerSettle_committed h.apart events⟩
  · obtain ⟨m₀, hm₀, hid⟩ := exists_of_hearEvents ((hawaiting id).symm.trans hm)
    exact hid ▸ hmark.symm ▸ h.marks id m₀ hm₀
  · rw [hsends] at hs
    obtain ⟨s₀, hs₀, rfl⟩ := List.mem_map.mp hs
    rw [Sent.mark_foldl, Sent.sentAt_foldl, hmark, hheard.now]
    exact h.known s₀ hs₀
  · obtain ⟨hlt, howner, hsent⟩ := (htasks task htask).elim
      (fun hold => h.begun task hold id mark hbegan) fun hnot => absurd hbegan (hnot id mark)
    refine ⟨hmark.symm ▸ hlt, fun id' m hm hid => ?_, fun s hs hid => ?_⟩
    · obtain ⟨m₀, hm₀, hid₀⟩ := exists_of_hearEvents ((hawaiting id').symm.trans hm)
      exact howner id' m₀ hm₀ (hid₀.trans hid)
    · rw [hsends] at hs
      obtain ⟨s₀, hs₀, rfl⟩ := List.mem_map.mp hs
      exact hsent s₀ hs₀ ((Sent.mark_foldl threadId events s₀).symm.trans hid)
  · rw [hsends, List.head?_map] at hs
    obtain ⟨s₀, hs₀, rfl⟩ := Option.map_eq_some_iff.mp hs
    rw [hawaiting, hheard.now]
    refine (h.covered s₀ hs₀).foldl ?_
    by_cases hnone : w.drainer.awaiting threadId = none
    · exact .inl hnone
    · refine .inr fun event hevent htype hthread => ?_
      obtain ⟨draft, hdraft, hdraftType, hdraftId, -⟩ := Db.exists_draft_of_written hevents event hevent
      exact (hkept hnone draft hdraft (hdraftId ▸ hthread)).1 (hdraftType ▸ htype)
  · have hm' := (hawaiting threadId).symm.trans hm
    obtain ⟨m₀, hm₀, -⟩ := exists_of_hearEvents hm'
    refine liveWait_append h.live (fun draft hdraft htype hthread => ?_) hevents m hm' hsaw
    exact (hkept (by simp [hm₀]) draft hdraft hthread).2 htype

variable {owner : String}

private theorem Waits.waitFired (h : Waits threadId w tasks) (hdue : w.drainer.waitDue owner w.now = true) :
    Waits threadId { w with drainer := w.drainer.clearAwaiting owner } tasks := by
  have hawaiting := Drainer.awaiting_clearAwaiting h.ok owner
  have hfrom (id : String) (m : Mark) (hm : (w.drainer.clearAwaiting owner).awaiting id = some m) :
      w.drainer.awaiting id = some m := by
    rw [hawaiting] at hm
    split_ifs at hm
    exact hm
  have hmark : (w.drainer.clearAwaiting owner).nextMark = w.drainer.nextMark := Drainer.nextMark_modifyOf ..
  refine ⟨Drainer.ok_modifyOf h.ok owner _, fun id m hm => hmark.symm ▸ h.marks id m (hfrom id m hm),
    fun s hs => ⟨hmark.symm ▸ (h.known s hs).1, (h.known s hs).2⟩, fun task htask id mark hbegan => ?_,
    fun s hs => ?_, fun m hm hsaw => h.live m (hfrom threadId m hm) hsaw, h.apart⟩
  · obtain ⟨hlt, howner, hsent⟩ := h.begun task htask id mark hbegan
    exact ⟨hmark.symm ▸ hlt, fun id' m hm hid => howner id' m (hfrom id' m hm) hid, hsent⟩
  · rcases h.covered s hs with hsettled | ⟨m, hm, hid, hsaw, hsent⟩
    · exact .inl hsettled
    · by_cases howner : threadId = owner
      · subst howner
        obtain ⟨due, hmdue, hle⟩ : ∃ due ∈ m.due, due ≤ w.now := by
          simpa [Drainer.waitDue, hm, Option.any_eq_true] using hdue
        obtain ⟨at_, hat, hat'⟩ := hsent due hmdue
        refine .inl (Bool.or_eq_true_iff.mpr (.inr ?_))
        simp only [Option.any_eq_true, decide_eq_true_eq]
        exact ⟨at_, hat, hat'.trans hle⟩
      · refine .inr ⟨m, ?_, hid, hsaw, hsent⟩
        show (w.drainer.clearAwaiting owner).awaiting threadId = _
        rw [hawaiting, if_neg howner, hm]

/-! ### Parts -/

theorem still_aside (threadId : String) (h : Aside w w') : Still threadId w w' := by
  obtain ⟨answers, hlog⟩ := h.log
  refine ⟨h.drainer, h.now.ge, ⟨_, hlog, fun obs hobs => ?_⟩, by rw [h.getThread]⟩
  obtain ⟨answer, -, rfl⟩ := List.mem_map.mp hobs
  rfl

private theorem still_echoes (h : Echoes w w')
    (hstatus : (w'.getThread threadId).map (·.status) = (w.getThread threadId).map (·.status)) :
    Still threadId w w' := by
  obtain ⟨events, hlog, hown⟩ := h.log
  refine ⟨h.drainer ▸ .refl _, h.now.ge, ⟨_, hlog, fun obs hobs => ?_⟩, hstatus⟩
  obtain ⟨event, hevent, rfl⟩ := List.mem_map.mp hobs
  exact hown event hevent

theorem still_rewrote (threadId : String) {rows : List QueuedMessage} (h : World.Rewrote w owner rows w') :
    Still threadId w w' :=
  still_echoes h.toEchoes (by
    rw [World.getThread, Projection.getThread, h.threads]
    rfl)

theorem still_noted (threadId : String) (h : World.Noted w w') : Still threadId w w' := by
  refine still_echoes h.toEchoes ?_
  have hboth := congrArg (Option.map Prod.snd) (h.threads threadId)
  rw [Option.map_map, Option.map_map] at hboth
  exact hboth

private theorem Still.refl (threadId : String) (w : World) : Still threadId w w :=
  ⟨.refl _, le_rfl, ⟨[], rfl, by simp⟩, rfl⟩

private theorem Still.trans {m : World} (h : Still threadId w m) (h' : Still threadId m w') :
    Still threadId w w' := by
  obtain ⟨before, hlog, hquiet⟩ := h.log
  obtain ⟨before', hlog', hquiet'⟩ := h'.log
  refine ⟨h.drainer.trans h'.drainer, h.now.trans h'.now,
    ⟨before' ++ before, by rw [hlog', hlog, List.append_assoc], fun obs hobs => ?_⟩,
    h'.status.trans h.status⟩
  exact (List.mem_append.mp hobs).elim (hquiet' obs) (hquiet obs)

private theorem Still.observe (h : Still threadId w w') {obs : Obs} (hobs : obs.isQuiet = true) (tasks : List Task) :
    Still threadId w { w'.observe obs with tasks } := by
  obtain ⟨before, hlog, hquiet⟩ := h.log
  refine ⟨h.drainer, h.now, ⟨obs :: before, ?_, fun o ho => ?_⟩, h.status⟩
  · show obs :: w'.log = _
    rw [hlog]
    rfl
  · rcases List.mem_cons.mp ho with rfl | ho
    · exact hobs
    · exact hquiet o ho

variable {t : Turn} {task : Task}

theorem not_began_of_follows {rowId : String} {extra : List Task} (h : t.Follows threadId rowId extra)
    (htask : task ∈ extra) (id : String) (mark : Nat) :
    ¬ task.Began id mark := by
  rcases h with rfl | ⟨press, thread, rfl, -⟩
  · exact absurd htask List.not_mem_nil
  · obtain rfl := List.mem_singleton.mp htask
    rintro (⟨_, _, ⟨⟩⟩ | ⟨_, ⟨⟩⟩)

theorem not_began_of_goesOn {task' : Task} (hgoes : task.GoesOn task') (hsend : task'.sending = none)
    (id : String) (mark : Nat) : ¬ task'.Began id mark := by
  rintro (⟨path, ref, hs⟩ | ⟨ref, hs⟩)
  · rw [hsend] at hs
    cases hs
  · cases hgoes <;> cases hs

theorem not_began_of_spawns (h : t.Spawns task) (id : String) (mark : Nat) : ¬ task.Began id mark := by
  cases h with
  | dispatch _ hstage =>
    rcases hstage with rfl | rfl | rfl <;> rintro (⟨_, _, ⟨⟩⟩ | ⟨_, ⟨⟩⟩)
  | pass _ _ hsend =>
    rintro (⟨path, ref, hs⟩ | ⟨_, ⟨⟩⟩)
    rw [hsend] at hs
    cases hs
  | interrupt => rintro (⟨_, _, ⟨⟩⟩ | ⟨_, ⟨⟩⟩)
  | goesOn _ hgoes _ hsend' => exact not_began_of_goesOn hgoes hsend' id mark

theorem kept_of_resumes {answer : World.Answer} {path : SendPath} {ref mark : Nat} {result : DeliverResult}
    (hC : t.start.forgetsWait threadId t.action = false) (hresumes : t.Resumes task answer)
    (hsending : task.sending = some (owner, path, ref, mark)) (hsent : result.isSent = answer.isSent)
    (howner : owner = threadId) (hunsent : result.isSent = false) :
    ∀ s ∈ ((sends threadId t.world.log).filter (·.mark ≠ mark)).head?, s.settled t.world.now = true := by
  obtain ⟨-, i, newId, drainer, haction, htask, -, hworld⟩ := hresumes
  rw [haction] at hC
  have hany : ((sends threadId t.start.log).filter (·.mark ≠ mark)).head?.any (!·.settled t.start.now) = false := by
    simpa [forgetsWait, ← hsent, hunsent, htask, hsending, howner] using hC
  intro s hs
  rw [hworld] at hs ⊢
  have hhead : ((sends threadId t.start.log).filter (·.mark ≠ mark)).head? = some s := hs
  rw [hhead] at hany
  show s.settled t.start.now = true
  simpa using hany

theorem free_of_beginsSwitch {a : Action} (hC : w.forgetsWait threadId a = false)
    (hbegins : w.beginsSwitch a = some threadId) :
    w.drainer.awaiting threadId = none := by
  cases a with
  | command c ctx newId => simpa [forgetsWait, hbegins] using hC
  | _ => cases hbegins

theorem waits_of_part {t' : Turn} (h : Waits threadId t.world t.tasks)
    (hC : t.start.forgetsWait threadId t.action = false) (hpart : Part t t') :
    Waits threadId t'.world t'.tasks := by
  have hworld : Waits threadId t.world t.world.tasks :=
    h.still (.refl threadId t.world) fun task htask => .inl (t.world_tasks_subset htask)
  have hwith {task : Task} (hrun : t.running = some task) : Waits threadId t.world (task :: t.world.tasks) := by
    have hall := h
    rw [tasks, hrun] at hall
    exact hall
  have hcalls {tasks tasks' : List Task} {ids : List String} (heq : tasks' = tasks ++ ids.map .schedule) :
      ∀ task ∈ tasks', task ∈ tasks ∨ ∀ id mark, ¬ task.Began id mark := by
    intro task htask
    rw [heq] at htask
    refine (List.mem_append.mp htask).imp_right fun hcall => ?_
    obtain ⟨id, -, rfl⟩ := List.mem_map.mp hcall
    exact Task.not_began_of_isDeferred rfl
  cases hpart with
  | aside haside =>
    exact h.still (still_aside threadId haside) fun task htask => .inl (by
      simpa only [tasks, haside.tasks] using htask)
  | later ms =>
    exact h.still ⟨.refl _, by simp, ⟨[], rfl, by simp⟩, rfl⟩ fun task htask => .inl htask
  | issue => exact h.still ⟨.refl _, le_rfl, ⟨[], rfl, by simp⟩, rfl⟩ fun task htask => .inl htask
  | @take i task htask hrun =>
    refine h.still ⟨.refl _, le_rfl, ⟨[], rfl, by simp⟩, rfl⟩ fun other hother => .inl ?_
    obtain ⟨hlt, rfl⟩ := List.getElem?_eq_some_iff.mp htask
    simpa [tasks, hrun] using (List.getElem_cons_eraseIdx_perm hlt).mem_iff.mp hother
  | ended => exact hworld
  | @spawn task hspawns =>
    refine hworld.still ⟨.refl _, le_rfl, ⟨[], rfl, by simp⟩, rfl⟩ fun other hother => ?_
    rcases List.mem_append.mp (show other ∈ t.world.tasks ++ [task] from hother) with hold | hnew
    · exact .inl hold
    · obtain rfl := List.mem_singleton.mp hnew
      exact .inr (not_began_of_spawns hspawns)
  | @send owner path task hsends =>
    obtain ⟨new, htasks, hsend⟩ := hworld.send (sending_of_sends hsends) (by
      rintro rfl hdrained
      cases hsends with
      | start | waited | steer => cases hdrained
      | drained _ _ _ htakes _ _ hdrainer =>
        rw [hdrainer]
        simp only [World.passTakes, Bool.and_eq_true, Option.isNone_iff_eq_none] at htakes
        exact htakes.1.1.1.2)
    rwa [← htasks] at hsend
  | @sendBack task answer owner path ref mark result hresumes hsending hsent hrow =>
    exact (hwith hresumes.1).sendBack result hsending (kept_of_resumes hC hresumes hsending hsent)
  | @rowDone task answer owner rowId path ref mark result w rows before after change hresumes hsending
      hsent hrow hdone haside hrows hbefore hafter hnotices =>
    have hback := (hwith hresumes.1).sendBack result hsending (kept_of_resumes hC hresumes hsending hsent)
    have hstill := still_aside threadId haside
    cases happ : w.append (before ++ queueEvent owner rows change :: after) with
    | none => exact hback.still hstill fun task htask => .inl (haside.tasks ▸ htask)
    | some w' =>
      have hrewrote := World.rewrote_append hnotices (fun d hd => (hafter d hd).1) happ
      obtain ⟨ids, hids⟩ := hrewrote.tasks
      exact hback.still (hstill.trans (still_rewrote threadId hrewrote))
        (hcalls (hids.trans (congrArg (· ++ _) haside.tasks)))
  | @beginSwitch owner task hrun hbegins hdrainer htask =>
    obtain ⟨new, htasks, hswitch⟩ := hworld.beginSwitch htask (by
      rintro rfl
      rw [hdrainer]
      exact free_of_beginsSwitch hC hbegins)
    rw [← htasks] at hswitch
    show Waits threadId _ (t.running.toList ++ _)
    rw [hrun]
    exact hswitch
  | endSwitch hrun hswitch => exact (hwith hrun).endSwitch hswitch
  | rewrote hrewrote =>
    obtain ⟨ids, hids⟩ := hrewrote.tasks
    exact h.still (still_rewrote threadId hrewrote)
      (hcalls ((congrArg (_ ++ ·) hids).trans (List.append_assoc ..).symm))
  | @added owner base rows row w w' extra _ _ _ _ _ hrewrote haside hextra =>
    obtain ⟨ids, hids⟩ := hrewrote.tasks
    have hstill := (still_rewrote threadId hrewrote).trans (still_aside threadId haside)
    refine hworld.still (hstill.observe rfl _) fun task htask => ?_
    rcases List.mem_append.mp (show task ∈ w'.tasks ++ extra from htask) with hold | hnew
    · exact hcalls (haside.tasks.trans hids) task hold
    · exact .inr (not_began_of_follows hextra hnew)
  | @cancelled owner rowId rows w w' _ hrewrote haside =>
    obtain ⟨ids, hids⟩ := hrewrote.tasks
    have hstill := (still_rewrote threadId hrewrote).trans (still_aside threadId haside)
    exact h.still (hstill.observe rfl w'.tasks) (hcalls
      ((congrArg (_ ++ ·) (haside.tasks.trans hids)).trans (List.append_assoc ..).symm))
  | noted hnoted =>
    obtain ⟨ids, hids⟩ := hnoted.tasks
    exact h.still (still_noted threadId hnoted) (hcalls ((congrArg (_ ++ ·) hids).trans (List.append_assoc ..).symm))
  | @press task task' owner hresumes hgoes _ _ hsend' =>
    refine hworld.still ⟨.refl _, le_rfl, ⟨[.pressed owner t.world.now], rfl, by simp [Obs.isQuiet]⟩, rfl⟩
      fun other hother => ?_
    rcases List.mem_append.mp (show other ∈ t.world.tasks ++ [task'] from hother) with hold | hnew
    · exact .inl hold
    · obtain rfl := List.mem_singleton.mp hnew
      exact .inr (not_began_of_goesOn hgoes hsend')
  | @outside drafts options w haction hqueue hstart happ =>
    obtain ⟨events, -, hheard⟩ := heard_append happ
    obtain ⟨calls, hcalls, hdeferred⟩ := hheard.tasks
    rw [haction, ← hstart] at hC
    refine h.append happ (fun hwaits draft hdraft hthread => ?_) fun task htask => ?_
    · have hnot : ∀ draft ∈ drafts, draft.threadId = some threadId →
          ¬ draft.payload.type = .threadArchived ∧ ¬ draft.payload.type = .threadDeleted := by
        simpa [forgetsWait, Option.isSome_iff_ne_none.mpr hwaits] using hC
      exact hnot draft hdraft hthread
    · rw [tasks, hcalls, ← List.append_assoc] at htask
      exact (List.mem_append.mp htask).imp_right fun hcall =>
        Task.not_began_of_isDeferred (hdeferred task hcall)
  | waitFired hdue => exact h.waitFired hdue

end Turn

namespace World

/-- In every run from a bridge start in which no step makes the drainer forget a message of the thread
that it still waits for, every queued row of the thread was handed over once the message before it was
settled. -/
theorem one_per_settle {threadId : String} {w : World}
    (h : Reaches (fun w a => w.forgetsWait threadId a = false) w) : OnePerSettle threadId w.log := by
  obtain ⟨batches, db, written, now, -, hrun⟩ := h
  have hbooted := booted_boot db now
  have hquiet : ∀ obs ∈ (boot db now).log, obs.isQuiet = true := by
    intro obs hobs
    obtain ⟨event, rfl, hown⟩ := hbooted.log obs hobs
    exact hown
  obtain ⟨hsends, hone⟩ := @sends_quiet threadId _ [] hquiet
  rw [List.append_nil] at hsends hone
  have hnone (id : String) : (boot db now).drainer.awaiting id = none := by
    rw [hbooted.drainer]
    rfl
  refine (Turn.run_invariant (Q := fun w running _ => Turn.Waits threadId w (running.toList ++ w.tasks))
    (fun t t' ht _ hC hpart => Turn.waits_of_part ht hC hpart) hrun
    ⟨?_, ?_, ?_, ?_, ?_, ?_, hone trivial⟩).apart
  · rw [hbooted.drainer]
    exact ⟨by simp [Drainer.empty], by simp [Drainer.empty], by simp [Drainer.empty]⟩
  · simp [hnone]
  · simp [hsends, sends]
  · intro task htask id mark hbegan
    obtain ⟨id', rfl⟩ := hbooted.tasks task htask
    exact absurd hbegan (Task.not_began_of_isDeferred rfl id mark)
  · simp [hsends, sends]
  · intro m hm
    simp [hnone] at hm

/-- A message starts a run; the row queued behind it goes once the run is over. -/
def sentAndSettled : List Action :=
  [.command (.messageDispatch "t1" "first" [] .start) (testContext "c1") "n1",
    .resume 0 (.send (.done .sent)) "n2", statusBatch .working 1,
    .command (.messageDispatch "t1" "second" [] .queue) (testContext "c2") "q1", statusBatch .idle 2,
    .startPass "t1", .resume 2 (.composer (some true)) "n3"]

def modelBatch : Action :=
  let capabilities := { (dispatchThread .idle).capabilities with
    canSwitchModel := true, modelCommand := some "/model" }
  .environment [{ threadId := some "t1"
                  payload := .threadUpdated { capabilities := .val capabilities } 1 }] {}

/-- A message is out, the model is switched, and a row goes at once. -/
def sentAndForgotten : List Action :=
  [modelBatch, .command (.messageDispatch "t1" "first" [] .start) (testContext "c1") "n1",
    .resume 0 (.send (.done .sent)) "n2",
    .command (.modelSet "t1" "opus") (testContext "c2") "n3", .resume 0 (.send (.done .sent)) "n4",
    .command (.messageDispatch "t1" "second" [] .queue) (testContext "c3") "n5",
    .resume 0 (.composer (some false)) "q1", .startPass "t1", .resume 1 (.composer (some true)) "n6"]

def drainedCount (log : List Obs) : Nat :=
  log.countP fun obs => match obs with
    | .handed _ _ path _ _ => path.isDrained
    | _ => false

/-- The row waits for the run of the message before it. -/
theorem one_per_settle_run : ∃ w, Reaches (fun w a => w.forgetsWait "t1" a = false) w ∧
    drainedCount w.log = 1 ∧ OnePerSettle "t1" w.log := by
  obtain ⟨w, hreaches, hdrained⟩ := reaches_of_exec .idle sentAndSettled
    (C := fun w a => w.forgetsWait "t1" a = false) (p := fun w => drainedCount w.log = 1)
    (by decide +kernel)
  exact ⟨w, hreaches, by simpa using hdrained, one_per_settle hreaches⟩

/-- The switch made the drainer forget the message that was out, and the row does not wait. -/
theorem two_before_settle : ¬ ∀ threadId w, Reaches Always w → OnePerSettle threadId w.log := by
  intro h
  obtain ⟨w, hreaches, hnot⟩ := reaches_of_exec .idle sentAndForgotten (C := Always)
    (p := fun w => ¬ OnePerSettle "t1" w.log) (by decide +kernel)
  exact of_decide_eq_true hnot (h "t1" w hreaches)

end World

end Sightr
