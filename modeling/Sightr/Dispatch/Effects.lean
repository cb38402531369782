import Sightr.Dispatch.Kept

/-!
# What a turn without a pass does

Every turn that no pass makes is a chain of a few effects on the store, the drainer and the passes: a batch
that carries no queue, a thread's queue written as it was or shortened, a new row put behind it, or a queue
moved by a reorder or a steer. None of them touches the drainer's counts of failed sends, and none begins or
ends a pass.
-/

namespace Sightr

open Projection

/-! ### Counts -/

namespace Drainer

structure Distinct (d : Drainer) : Prop where
  injective : ∀ a b ref, d.states a = some ref → d.states b = some ref → a = b
  lt : ∀ a ref, d.states a = some ref → ref < d.nextRef

/-- The counts of failed sends are as they were, and those of new state objects are zero. -/
structure Counts (d d' : Drainer) : Prop where
  refs : d.nextRef ≤ d'.nextRef
  marks : d.nextMark ≤ d'.nextMark
  failures : ∀ ref < d.nextRef, (d'.heap ref).failures = (d.heap ref).failures
  states : ∀ id ref, d'.states id = some ref →
    d.states id = some ref ∨ d.nextRef ≤ ref ∧ ref < d'.nextRef ∧ (d'.heap ref).failures = 0
  distinct : d.Distinct → d'.Distinct

variable {d d' d'' : Drainer}

theorem Counts.refl (d : Drainer) : d.Counts d := ⟨le_rfl, le_rfl, fun _ _ => rfl, fun _ _ h => .inl h, id⟩

theorem Counts.trans (h : d.Counts d') (h' : d'.Counts d'') : d.Counts d'' := by
  refine ⟨h.refs.trans h'.refs, h.marks.trans h'.marks, fun ref href => ?_, fun id ref hstate => ?_,
    fun hd => h'.distinct (h.distinct hd)⟩
  · exact (h'.failures ref (href.trans_le h.refs)).trans (h.failures ref href)
  · rcases h'.states id ref hstate with hstate | ⟨hge, hlt, hzero⟩
    · rcases h.states id ref hstate with hstate | ⟨hge, hlt, hzero⟩
      · exact .inl hstate
      · exact .inr ⟨hge, hlt.trans_le h'.refs, (h'.failures ref hlt).trans hzero⟩
    · exact .inr ⟨h.refs.trans hge, hlt, hzero⟩

theorem counts_of_eq (hstates : d'.states = d.states) (hrefs : d'.nextRef = d.nextRef)
    (hmarks : d.nextMark ≤ d'.nextMark) (hheap : ∀ ref, (d'.heap ref).failures = (d.heap ref).failures) :
    d.Counts d' := by
  refine ⟨hrefs.ge, hmarks, fun ref _ => hheap ref, fun id ref h => .inl (hstates ▸ h), fun hd => ⟨?_, ?_⟩⟩
  · rw [hstates]
    exact hd.injective
  · rw [hstates, hrefs]
    exact hd.lt

variable {f : DrainState → DrainState}

section

variable (d : Drainer)

theorem counts_modify (ref : Nat) (hf : ∀ s, (f s).failures = s.failures) : d.Counts (d.modify ref f) := by
  refine counts_of_eq rfl rfl le_rfl fun r => ?_
  simp only [modify, Function.update_apply]
  split_ifs with h
  · rw [hf, h]
  · rfl

variable (id : String)

theorem counts_modifyOf (hf : ∀ s, (f s).failures = s.failures) : d.Counts (d.modifyOf id f) := by
  unfold modifyOf
  split
  · exact .refl d
  · exact counts_modify d _ hf

theorem counts_clearAwaiting : d.Counts (d.clearAwaiting id) :=
  counts_modifyOf d id fun _ => rfl

theorem counts_clearRetry : d.Counts (d.clearRetry id) :=
  counts_modifyOf d id fun _ => rfl

theorem counts_seeWorking : d.Counts (d.seeWorking id) :=
  counts_modifyOf d id fun _ => rfl

theorem counts_stateOf : d.Counts (d.stateOf id).1 := by
  unfold stateOf
  split
  · exact .refl d
  · refine ⟨Nat.le_succ _, le_rfl, fun ref href => ?_, fun id' ref hstate => ?_,
      fun hd => ⟨fun a b ref ha hb => ?_, fun a ref ha => ?_⟩⟩
    · simp [Function.update_of_ne href.ne]
    · simp only [Function.update_apply] at hstate
      split_ifs at hstate with h
      · cases hstate
        exact .inr ⟨le_rfl, Nat.lt_succ_self _, by simp⟩
      · exact .inl hstate
    · simp only [Function.update_apply] at ha hb
      split_ifs at ha hb with h h' h'
      · rw [h, h']
      · exact absurd (hd.lt b ref hb) (by rw [← Option.some.inj ha]; exact lt_irrefl _)
      · exact absurd (hd.lt a ref ha) (by rw [← Option.some.inj hb]; exact lt_irrefl _)
      · exact hd.injective a b ref ha hb
    · simp only [Function.update_apply] at ha
      split_ifs at ha with h
      · rw [← Option.some.inj ha]
        exact Nat.lt_succ_self _
      · exact (hd.lt a ref ha).trans (Nat.lt_succ_self _)

theorem states_stateOf : (d.stateOf id).1.states id = some (d.stateOf id).2 := by
  unfold stateOf
  split
  · assumption
  · simp

theorem counts_forget : d.Counts (d.forget id) := by
  have hclear := (d.counts_clearAwaiting id).trans ((d.clearAwaiting id).counts_clearRetry id)
  refine hclear.trans ⟨le_rfl, le_rfl, fun _ _ => rfl, fun a ref ha => ?_,
    fun hd => ⟨fun a b ref ha hb => ?_, fun a ref ha => ?_⟩⟩
  · simp only [forget, Function.update_apply] at ha
    split_ifs at ha
    exact .inl ha
  · simp only [forget, Function.update_apply] at ha hb
    split_ifs at ha hb
    exact hd.injective a b ref ha hb
  · simp only [forget, Function.update_apply] at ha
    split_ifs at ha
    exact hd.lt a ref ha

theorem counts_beginSend : d.Counts (d.beginSend id).1 := by
  have hstate := (d.counts_clearAwaiting id).trans ((d.clearAwaiting id).counts_stateOf id)
  refine hstate.trans ((counts_modify _ ((d.clearAwaiting id).stateOf id).2
    (f := fun s => { s with awaiting := some { id := ((d.clearAwaiting id).stateOf id).1.nextMark } })
    fun _ => rfl).trans ?_)
  exact counts_of_eq rfl rfl (Nat.le_succ _) fun _ => rfl

theorem counts_finishSend (ref mark : Nat) (sent : Bool) (status : ThreadStatus) (now : Int) :
    d.Counts (d.finishSend ref mark sent status now) := by
  unfold finishSend
  split
  · exact .refl d
  · split_ifs
    · exact .refl d
    · exact counts_modify d ref fun _ => rfl
    · exact counts_modify d ref fun _ => rfl
    · exact counts_modify d ref fun _ => rfl

theorem counts_backOff (now : Int) : d.Counts (d.backOff id now) := by
  unfold backOff
  dsimp only
  split_ifs
  · exact counts_stateOf d id
  · exact (counts_stateOf d id).trans (counts_modify _ _ fun _ => rfl)

end

theorem counts_of_same (hstates : d'.states = d.states) (hheap : d'.heap = d.heap)
    (hrefs : d'.nextRef = d.nextRef) (hmarks : d'.nextMark = d.nextMark) : d.Counts d' :=
  counts_of_eq hstates hrefs hmarks.ge fun ref => by rw [hheap]

theorem counts_schedule (d : Drainer) (id : String) : d.Counts (d.schedule id) := by
  unfold schedule
  split
  · exact .refl d
  · exact counts_of_same rfl rfl rfl rfl

theorem counts_beginPass (d : Drainer) (id : String) : d.Counts (d.beginPass id) := by
  have hqueued : d.Counts { d with queuedPass := d.queuedPass.filter (· ≠ id) } := counts_of_same rfl rfl rfl rfl
  exact hqueued.trans (counts_clearRetry _ id)

end Drainer

namespace World

open Drainer

/-! ### The listeners -/

theorem counts_drainOn (w : World) (threadId : String) (payload : ServerPayload) :
    w.drainer.Counts (w.drainOn threadId payload).drainer := by
  have hnotify (d : Drainer) (why : SettleWait) : d.Counts (d.notifyWaiters threadId why) :=
    counts_of_same rfl rfl rfl rfl
  unfold drainOn
  split
  · split
    · exact .refl _
    · split_ifs
      · exact counts_seeWorking ..
      · exact .refl _
      · exact (counts_clearAwaiting ..).trans (hnotify ..)
      · exact hnotify ..
  · split_ifs
    · exact counts_clearAwaiting ..
    · exact .refl _
  · exact (counts_forget ..).trans (hnotify ..)
  · split_ifs <;> exact .refl _
  · split_ifs <;> exact .refl _
  · exact .refl _

theorem counts_onEvent (w : World) (event : StoredEvent) : w.drainer.Counts (w.onEvent event).drainer := by
  have hinterrupt (w : World) (id : String) (payload : ServerPayload) :
      (w.interruptOn id payload).drainer = w.drainer := by
    unfold interruptOn
    split <;> rfl
  unfold onEvent
  dsimp only
  split
  · exact .refl _
  · rw [hinterrupt]
    exact counts_drainOn (w.observe (.committed event)) _ _

theorem counts_append {w w' : World} {drafts : List EventDraft} {options : AppendOptions}
    (h : w.append drafts options = some w') : w.drainer.Counts w'.drainer := by
  obtain ⟨db, events, -, rfl⟩ := append_eq_some.mp h
  have hfold (events : List StoredEvent) (w : World) : w.drainer.Counts (events.foldl onEvent w).drainer := by
    induction events generalizing w with
    | nil => exact .refl _
    | cons event events ih => exact (counts_onEvent w event).trans (ih _)
  exact hfold events { w with db }

end World

/-! ### Effects -/

def Task.pass? : Task → Option (String × PassStage)
  | .pass threadId stage => some (threadId, stage)
  | _ => none

def World.passStages (w : World) : List (String × PassStage) := w.tasks.filterMap Task.pass?

/-- The thread whose queue the task may put in another order: a steer's. -/
def Task.movesQueue : Task → Option String
  | .dispatch _ thread _ _ .steerBackground => some thread.id
  | .steer threadId .. => some threadId
  | _ => none

def Task.commandId : Task → Option String
  | .dispatch ctx .. | .interrupt ctx .. | .permissionMode ctx .. | .model ctx .. => some ctx.commandId
  | _ => none

def Task.answers (commandId : String) : Task → Bool
  | .dispatch ctx .. | .interrupt ctx .. | .permissionMode ctx .. | .model ctx .. => ctx.commandId = commandId
  | _ => false

/-- The task is the handler of this command, or of none. -/
abbrev Task.Mine (who : Option String) (task : Task) : Prop := task.commandId = none ∨ task.commandId = who

theorem Task.answers_eq (commandId : String) (task : Task) :
    task.answers commandId = decide (task.commandId = some commandId) := by
  cases task <;> simp [answers, Task.commandId]

theorem Task.Mine.answers_eq_false {who : Option String} {task : Task} {commandId : String} (h : task.Mine who)
    (hne : who ≠ some commandId) : task.answers commandId = false := by
  rw [Task.answers_eq, decide_eq_false_iff_not]
  rcases h with h | h <;> rw [h]
  · simp
  · exact hne

def Action.newId : Action → Option String
  | .command _ _ newId | .resume _ _ newId => some newId
  | _ => none

def Obs.isDrained : Obs → Bool
  | .handed _ _ (.drained _) _ _ | .reported _ (.drained _) _ _ => true
  | _ => false

namespace World

open Drainer

/-- How a queue is written: in its order and maybe shorter, with a new row at its back, or moved. -/
def Orders (newId : Option String) (moves : String → Prop) (w : World) (threadId : String)
    (rows : List QueuedMessage) : Prop :=
  (rows.map (·.id)).Sublist ((w.listQueued threadId).map (·.id)) ∧ rows.Pairwise (·.position ≤ ·.position) ∨
    (∃ (base : List QueuedMessage) (row : QueuedMessage), rows = base ++ [row] ∧
      (base = w.listQueued threadId ∨ base = []) ∧ newId = some row.id ∧ row.position = (base.length : Int)) ∨
    moves threadId

/-- Nothing but the drainer's timers, the log and tasks that are no passes. -/
structure Beside (who : Option String) (w w' : World) : Prop where
  db : w'.db = w.db
  counts : w.drainer.Counts w'.drainer
  passes : w'.passStages = w.passStages
  handlers : ∀ commandId, who ≠ some commandId →
    w'.tasks.filter (·.answers commandId) = w.tasks.filter (·.answers commandId)
  log : ∃ before, w'.log = before ++ w.log ∧ ∀ obs ∈ before, obs.isDrained = false

inductive Effect (who newId : Option String) (moves : String → Prop) : World → World → Prop
  | beside {w w' : World} (h : Beside who w w') : Effect who newId moves w w'
  | commits {w w' : World} {drafts : List EventDraft} {options : AppendOptions}
      (hmine : options.commandId = none ∨ options.commandId = who)
      (hqueue : ∀ draft ∈ drafts, draft.payload.type ≠ .queueUpdated) (h : w.append drafts options = some w') :
    Effect who newId moves w w'
  | writes {w w' : World} {before after : List EventDraft} {options : AppendOptions} {threadId : String}
      {rows : List QueuedMessage} {change : Option QueueChange} {reason : Option String}
      (hmine : options.commandId = none ∨ options.commandId = who)
      (hbefore : ∀ draft ∈ before, isDispatchNotice draft = true)
      (hafter : ∀ draft ∈ after, isDispatchNotice draft = true) (horders : Orders newId moves w threadId rows)
      (h : w.append (before ++ queueEvent threadId rows change reason :: after) options = some w') :
    Effect who newId moves w w'

/-- No count changed, no pass moved and none was heard of. -/
structure Rests (w w' : World) : Prop where
  counts : w.drainer.Counts w'.drainer
  passes : w'.passStages = w.passStages
  log : ∃ before, w'.log = before ++ w.log ∧ ∀ obs ∈ before, obs.isDrained = false

abbrev Effects (who newId : Option String) (moves : String → Prop) : World → World → Prop :=
  Relation.ReflTransGen (Effect who newId moves)

variable {who newId : Option String} {moves : String → Prop} {w m w' : World}

theorem beside_drainer {d : Drainer} (h : w.drainer.Counts d) : Beside who w { w with drainer := d } :=
  ⟨rfl, h, rfl, fun _ _ => rfl, [], rfl, by simp⟩

theorem beside_observe {obs : Obs} (h : obs.isDrained = false) : Beside who w (w.observe obs) :=
  ⟨rfl, .refl _, rfl, fun _ _ => rfl, [obs], rfl, by simpa using h⟩

variable {task : Task}

theorem beside_spawn (h : task.pass? = none) (hmine : task.Mine who) : Beside who w (w.spawn task) :=
  ⟨rfl, .refl _, by simp [passStages, spawn, h], fun _ hne => by simp [spawn, hmine.answers_eq_false hne], [],
    rfl, by simp⟩

theorem effects_of_beside (h : Beside who w w') : Effects who newId moves w w' := .single (.beside h)

theorem effects_answer (ctx : EffectContext) (outcome : EffectOutcome) :
    Effects who newId moves w (w.answer ctx outcome) := effects_of_beside (beside_observe rfl)

theorem effects_threw (ctx : EffectContext) : Effects who newId moves w (w.threw ctx) :=
  effects_of_beside (beside_observe rfl)

theorem effects_spawn (h : task.pass? = none) (hmine : task.Mine who) :
    Effects who newId moves w (w.spawn task) :=
  effects_of_beside (beside_spawn h hmine)

theorem effects_schedule (threadId : String) : Effects who newId moves w (w.schedule threadId) :=
  effects_of_beside (beside_drainer (counts_schedule ..))

theorem effects_backOff (threadId : String) : Effects who newId moves w (w.backOff threadId) :=
  effects_of_beside (beside_drainer (counts_backOff ..))

variable {threadId : String} {path : SendPath}

theorem effects_send {task : Nat → Nat → Task} (hpath : ∀ rowId, path ≠ .drained rowId)
    (h : ∀ ref mark, (task ref mark).pass? = none)
    (hmine : ∀ ref mark, (task ref mark).Mine who) :
    Effects who newId moves w (w.send threadId path task) := by
  refine effects_of_beside ⟨rfl, counts_beginSend .., by simp [passStages, send, spawn, observe, h],
    fun _ hne => by simp [send, spawn, observe, (hmine _ _).answers_eq_false hne], [_], rfl, ?_⟩
  cases path <;> simp_all [Obs.isDrained]

variable {result : DeliverResult}

theorem effects_sendBack {ref mark : Nat} (hpath : ∀ rowId, path ≠ .drained rowId) :
    Effects who newId moves w (w.sendBack threadId path ref mark result) := by
  refine effects_of_beside ⟨rfl, counts_finishSend .., rfl, fun _ _ => rfl, [_], rfl, ?_⟩
  cases path <;> simp_all [Obs.isDrained]

theorem effects_beginSwitch {task : Nat → Nat → Task} (h : ∀ ref mark, (task ref mark).pass? = none)
    (hmine : ∀ ref mark, (task ref mark).Mine who) : Effects who newId moves w (w.beginSwitch threadId task) :=
  effects_of_beside ⟨rfl, counts_beginSend .., by simp [passStages, beginSwitch, spawn, h],
    fun _ hne => by simp [beginSwitch, spawn, (hmine _ _).answers_eq_false hne], [], rfl, by simp⟩

theorem effects_endSwitch (threadId : String) (ref mark : Nat) :
    Effects who newId moves w (w.endSwitch threadId ref mark) :=
  effects_of_beside (beside_drainer (counts_finishSend ..))

variable {o : Option World}

theorem effects_getD (h : ∀ w', o = some w' → Effects who newId moves w w') :
    Effects who newId moves w (o.getD w) := by
  cases o with
  | none => exact .refl
  | some w' => exact h w' rfl

variable {drafts : List EventDraft} {options : AppendOptions}

theorem effects_commits (hmine : options.commandId = none ∨ options.commandId = who)
    (hqueue : ∀ draft ∈ drafts, draft.payload.type ≠ .queueUpdated) (h : w.append drafts options = some w') :
    Effects who newId moves w w' := .single (.commits hmine hqueue h)

theorem ne_queueUpdated_of_isDispatchNotice {draft : EventDraft} (h : isDispatchNotice draft = true) :
    draft.payload.type ≠ .queueUpdated := by
  intro hqueue
  simp [isDispatchNotice, hqueue] at h

variable {after : List EventDraft} {rows : List QueuedMessage} {change : Option QueueChange} {reason : Option String}

section

variable (hmine : options.commandId = none ∨ options.commandId = who)
include hmine

theorem effects_writes {before : List EventDraft}
    (hbefore : AllNotices before) (hafter : AllNotices after) (horders : Orders newId moves w threadId rows)
    (h : w.append (before ++ queueEvent threadId rows change reason :: after) options = some w') :
    Effects who newId moves w w' := .single (.writes hmine hbefore hafter horders h)

theorem effects_writes_cons (hafter : AllNotices after)
    (horders : Orders newId moves w threadId rows)
    (h : w.append (queueEvent threadId rows change reason :: after) options = some w') :
    Effects who newId moves w w' :=
  effects_writes hmine (fun _ hdraft => absurd hdraft List.not_mem_nil) hafter horders h

end

variable {ctx : EffectContext}

theorem effects_commit?
    (hdrafts : ∀ w', w.append drafts { commandId := some ctx.commandId, receipt := some ctx.receipt } = some w' →
      Effects who newId moves w w')
    (h : w.commit? drafts ctx threadId = some w') : Effects who newId moves w w' := by
  obtain ⟨m, hm, rfl⟩ := Turn.commit?_eq_some h
  exact (hdrafts m hm).trans (effects_answer _ _)

theorem effects_commit
    (hdrafts : ∀ w', w.append drafts { commandId := some ctx.commandId, receipt := some ctx.receipt } = some w' →
      Effects who newId moves w w') :
    Effects who newId moves w (w.commit drafts ctx threadId) := by
  unfold commit
  cases h : w.commit? drafts ctx threadId with
  | none => exact effects_threw ctx
  | some w' => exact effects_commit? hdrafts h

/-! ### Passes rest -/

theorem Rests.refl (w : World) : Rests w w := ⟨.refl _, rfl, [], rfl, by simp⟩

theorem Rests.trans (h : Rests w m) (h' : Rests m w') : Rests w w' := by
  obtain ⟨before, hlog, hquiet⟩ := h.log
  obtain ⟨before', hlog', hquiet'⟩ := h'.log
  refine ⟨h.counts.trans h'.counts, h'.passes.trans h.passes, before' ++ before, ?_, fun obs hobs => ?_⟩
  · rw [hlog', hlog, List.append_assoc]
  · exact (List.mem_append.mp hobs).elim (hquiet' obs) (hquiet obs)

theorem Beside.rests (h : Beside who w w') : Rests w w' := ⟨h.counts, h.passes, h.log⟩

theorem rests_append (h : w.append drafts options = some w') : Rests w w' := by
  obtain ⟨events, -, hheard⟩ := heard_append h
  obtain ⟨calls, htasks, hcalls⟩ := hheard.tasks
  refine ⟨counts_append h, ?_, _, hheard.log, fun obs hobs => ?_⟩
  · have hnone : calls.filterMap Task.pass? = [] := by
      refine List.filterMap_eq_nil_iff.mpr fun task htask => ?_
      have hdeferred := hcalls task htask
      cases task <;> first | rfl | cases hdeferred
    rw [passStages, htasks, List.filterMap_append, hnone, List.append_nil]
    rfl
  · obtain ⟨event, -, rfl⟩ := List.mem_map.mp (List.mem_reverse.mp hobs)
    rfl

theorem rests_getD (h : ∀ w', o = some w' → Rests w w') : Rests w (o.getD w) := by
  cases o with
  | none => exact .refl w
  | some w' => exact h w' rfl

theorem Effects.rests (h : Effects who newId moves w w') : Rests w w' := by
  induction h with
  | refl => exact .refl _
  | tail _ hlast ih =>
    refine ih.trans ?_
    cases hlast with
    | beside h => exact h.rests
    | commits _ _ h | writes _ _ _ _ h => exact rests_append h

/-! ### Orders -/

theorem pairwise_listQueued (p : Projection) (threadId : String) :
    (p.listQueued threadId).Pairwise (·.position ≤ ·.position) :=
  List.pairwise_insertionSort (fun a b : QueuedMessage => a.position ≤ b.position) _

theorem orders_map {f : QueuedMessage → QueuedMessage} (h : ∀ r, (f r).id = r.id ∧ (f r).position = r.position) :
    Orders newId moves w threadId ((w.listQueued threadId).map f) := by
  refine .inl ⟨?_, List.pairwise_map.mpr ((pairwise_listQueued _ threadId).imp fun {a b} hab => ?_)⟩
  · rw [List.map_map, List.map_congr_left fun r _ => show ((·.id) ∘ f) r = r.id from (h r).1]
  · rw [(h a).2, (h b).2]
    exact hab

theorem orders_filter (threadId : String) (p : QueuedMessage → Bool) :
    Orders newId moves w threadId ((w.listQueued threadId).filter p) :=
  .inl ⟨List.filter_sublist.map _, (pairwise_listQueued _ threadId).filter p⟩

/-! ### The drainer -/

theorem effects_holdClosed (threadId : String) : Effects who newId moves w (w.holdClosed threadId) := by
  unfold holdClosed
  dsimp only
  split_ifs
  · exact .refl
  · split
    · exact .refl
    · exact effects_getD fun w' h => effects_writes_cons (.inl rfl) (by simp)
        (orders_map fun r => by split_ifs <;> exact ⟨rfl, rfl⟩) h

theorem effects_passRestart (thread : ServerThread) (ready : Option Bool) :
    Effects who newId moves w (w.passRestart thread ready) := by
  unfold passRestart
  split
  · exact .refl
  · exact effects_backOff _
  · split
    · exact .refl
    · dsimp only
      split_ifs
      · exact .refl
      · exact .refl
      · exact effects_getD fun w' h => effects_writes_cons (.inl rfl) (by simp)
          (orders_map fun r => by split_ifs <;> exact ⟨rfl, rfl⟩) h

/-! ### The background steer -/

theorem effects_holdSteer (rowId reason : String) (message : Option String) (hmoves : moves threadId) :
    Effects who newId moves w (w.holdSteer threadId rowId reason message) := by
  unfold holdSteer
  dsimp only
  split
  · exact effects_getD fun w' h => effects_writes_cons (.inl rfl)
      (by simp [dispatchFailed, isDispatchNotice, Payload.type])
      (.inr (.inr hmoves)) h
  · exact .refl

theorem effects_requeueSteer (rowId : String) (hmoves : moves threadId) :
    Effects who newId moves w (w.requeueSteer threadId rowId) := by
  unfold requeueSteer
  dsimp only
  split
  · split
    · exact .refl
    · rename_i h
      exact (effects_writes_cons (.inl rfl) (by simp) (.inr (.inr hmoves)) h).trans (effects_schedule _)
  · exact .refl

theorem effects_deliverSteer (threadId rowId : String) (press : Bool) :
    Effects who newId moves w (w.deliverSteer threadId rowId press) := by
  unfold deliverSteer
  split
  · split_ifs
    · exact .refl
    · exact effects_send (by simp) (fun _ _ => rfl) fun _ _ => .inl rfl
  · exact .refl

/-- What a send of the guarded sender commits beside the row's removal. -/
def Notices (result : DeliverResult) : Prop :=
  ∀ events, result = .sent events → ∀ draft ∈ events, isDispatchNotice draft = true

theorem effects_steerSent (rowId : String) (ref mark : Nat) (hmoves : moves threadId) (hnotices : Notices result) :
    Effects who newId moves w (w.steerSent threadId rowId ref mark result) := by
  have hback : Effects who newId moves w (w.sendBack threadId (.steer rowId) ref mark result) :=
    effects_sendBack (by simp)
  unfold steerSent
  dsimp only
  split
  · exact hback.trans (effects_getD fun w' h => effects_writes (.inl rfl) (hnotices _ rfl) (by simp)
      (orders_filter ..) h)
  · exact hback.trans (effects_getD fun w' h => effects_writes_cons (.inl rfl)
      (by simp [dispatchFailed, isDispatchNotice, Payload.type]) (orders_filter ..) h)
  · exact hback.trans (effects_holdSteer _ _ _ hmoves)
  · exact hback.trans (effects_holdSteer _ _ _ hmoves)

theorem effects_waitSettled (threadId rowId : String) (press : Bool) (thread : ServerThread) :
    Effects who newId moves w (w.waitSettled threadId rowId press thread) := by
  unfold waitSettled
  dsimp only
  have hwaits (d : Drainer) (h : w.drainer.Counts d) : Effects who newId moves w { w with drainer := d } :=
    effects_of_beside (beside_drainer h)
  exact (hwaits (w.drainer.addWaiter threadId _) (counts_of_same rfl rfl rfl rfl)).trans
    (effects_spawn rfl (.inl rfl))

variable {thread : ServerThread} {answer : Answer}

theorem effects_sendInterrupt {steering : Bool} {stage stage' : InterruptStage}
    (h : w.sendInterrupt thread steering stage answer = some (w', stage')) :
    Effects who newId moves w w' := by
  obtain ⟨-, rfl | ⟨-, -, -, rfl⟩⟩ := Turn.sendInterrupt_cases h
  · exact .refl
  · exact effects_of_beside ⟨rfl, .refl _, rfl, fun _ _ => rfl, [_], rfl, by simp [Obs.isDrained]⟩

theorem notices_deliverResult (thread : ServerThread) (text : String) (attachments : List ChatAttachment)
    (intent : UserMessageInputIntent) (now : Int) (newId : String) (result : GuardedSendResult) :
    Notices (deliverResult thread text attachments intent now newId result) := by
  intro events hsent draft hdraft
  exact (Turn.noticesOf_deliverResult hsent draft hdraft).1

variable {id : String}

theorem effects_steerOn {rowId : String} {press : Bool} {stage : SteerStage} (hmoves : moves threadId)
    (h : w.steerOn threadId rowId press id stage answer = some w') : Effects who newId moves w w' := by
  unfold steerOn at h
  split at h
  · cases h
    unfold steerBackground
    split_ifs
    · exact effects_deliverSteer ..
    · exact effects_spawn rfl (.inl rfl)
    · exact effects_waitSettled ..
  · cases h
    unfold steerPressed
    split
    · exact effects_waitSettled ..
    · exact effects_requeueSteer _ hmoves
    · exact effects_holdSteer _ _ _ hmoves
    · exact effects_holdSteer _ _ _ hmoves
  · obtain ⟨⟨m, stage'⟩, hsend, rfl⟩ := Option.map_eq_some_iff.mp h
    exact (effects_sendInterrupt hsend).trans (effects_spawn rfl (.inl rfl))
  · rename_i thread waiter due
    obtain ⟨why, -, rfl⟩ := Option.map_eq_some_iff.mp h
    have hdrop : Effects who newId moves w { w with drainer := w.drainer.dropWaiter waiter } :=
      effects_of_beside (beside_drainer (counts_of_same rfl rfl rfl rfl))
    unfold steerWaited
    dsimp only
    split
    · exact hdrop
    · exact hdrop.trans (effects_deliverSteer ..)
    · exact hdrop.trans (effects_spawn rfl (.inl rfl))
  · cases h
    unfold steerTimedOut
    split_ifs
    · exact effects_deliverSteer ..
    · exact effects_holdSteer _ _ _ hmoves
  · cases h
    exact effects_steerSent _ _ _ hmoves (notices_deliverResult _ _ _ _ _ _ _)
  · cases h
    exact effects_steerSent _ _ _ hmoves (by simp [Notices])
  · cases h

/-! ### Queue commands and live modes -/

theorem effects_runInterrupt (threadId : String) (ctx : EffectContext) :
    Effects (some ctx.commandId) newId moves w (w.runInterrupt threadId ctx) := by
  unfold runInterrupt
  split_ifs
  · exact effects_answer ..
  · split
    · exact effects_answer ..
    · split
      · exact effects_answer ..
      · exact effects_spawn rfl (.inr rfl)

theorem effects_reorder (ids : List String) (ctx : EffectContext) (hmoves : moves threadId) :
    Effects (some ctx.commandId) newId moves w (w.reorder threadId ids ctx) := by
  unfold reorder
  split_ifs
  · exact effects_answer ..
  · split
    · exact effects_answer ..
    · dsimp only
      split_ifs
      · exact effects_answer ..
      · exact effects_commit fun w' => effects_commits (.inr rfl) (by simp)
      · exact effects_commit fun w' => effects_writes_cons (.inr rfl) (by simp) (.inr (.inr hmoves))

theorem effects_edit (id text : String) (ctx : EffectContext) :
    Effects (some ctx.commandId) newId moves w (w.edit id text ctx) := by
  unfold edit
  split_ifs
  · exact effects_answer ..
  · split
    · exact effects_answer ..
    · split
      · exact effects_answer ..
      · split_ifs
        · exact effects_answer ..
        · exact effects_commit fun w' => effects_commits (.inr rfl) (by simp)
        · exact effects_commit fun w' => effects_writes_cons (.inr rfl) (by simp)
            (orders_map fun r => by split_ifs <;> exact ⟨rfl, rfl⟩)

theorem effects_cancel (id : String) (ctx : EffectContext) :
    Effects (some ctx.commandId) newId moves w (w.cancel id ctx) := by
  unfold cancel
  split_ifs
  · exact effects_answer ..
  · split
    · exact effects_answer ..
    · split_ifs
      · exact effects_answer ..
      · dsimp only
        split
        · exact effects_threw ctx
        · rename_i h
          exact (effects_commit? (fun w' => effects_writes_cons (.inr rfl) (by simp) (orders_filter ..)) h).trans
            (effects_of_beside (beside_observe rfl))

theorem effects_resumeQueue (threadId : String) (ctx : EffectContext) :
    Effects (some ctx.commandId) newId moves w (w.resumeQueue threadId ctx) := by
  unfold resumeQueue
  split_ifs
  · exact effects_answer ..
  · split
    · exact effects_answer ..
    · split_ifs
      · exact effects_answer ..
      · dsimp only
        split_ifs
        · exact effects_commit fun w' => effects_commits (.inr rfl) (by simp)
        · split
          · exact effects_threw ctx
          · rename_i h
            exact (effects_commit? (fun w' => effects_writes_cons (.inr rfl) (by simp)
              (orders_map fun r => by split_ifs <;> exact ⟨rfl, rfl⟩)) h).trans (effects_schedule _)

theorem modePatch_ne_queueUpdated (w : World) (thread : ServerThread) (mode : String) :
    ∀ draft ∈ w.modePatch thread mode, draft.payload.type ≠ .queueUpdated := by
  intro draft hdraft
  unfold modePatch at hdraft
  split_ifs at hdraft
  · cases hdraft
  · obtain rfl := List.mem_singleton.mp hdraft
    simp [Payload.type]

theorem effects_permissionModeSet (thread : ServerThread) (mode : String) (ctx : EffectContext) (ref mark : Nat)
    (turn : Option PaneTurn) :
    Effects (some ctx.commandId) newId moves w (w.permissionModeSet thread mode ctx ref mark turn) := by
  have hend : Effects (some ctx.commandId) newId moves w (w.endSwitch thread.id ref mark) := effects_endSwitch ..
  unfold permissionModeSet
  dsimp only
  split
  · exact hend.trans (effects_threw ctx)
  · exact hend.trans (effects_answer ..)
  · exact hend.trans (effects_answer ..)
  · exact hend.trans (effects_commit fun w' => effects_commits (.inr rfl) (modePatch_ne_queueUpdated _ _ _))
  · split_ifs
    · exact hend.trans (effects_answer ..)
    · exact hend.trans (effects_answer ..)
  · rename_i reason _ shown
    split_ifs
    · exact hend.trans (effects_answer ..)
    · split
      · exact hend.trans (effects_threw ctx)
      · rename_i h
        refine hend.trans ((effects_commits (.inr rfl) ?_ h).trans (effects_answer ..))
        cases shown with
        | none => simp
        | some mode => exact modePatch_ne_queueUpdated _ _ _
  · exact hend.trans (effects_answer ..)

theorem effects_modelSent (thread : ServerThread) (ctx : EffectContext) (ref mark : Nat)
    (result : Option GuardedSendResult) :
    Effects (some ctx.commandId) newId moves w (w.modelSent thread ctx ref mark result) := by
  have hend : Effects (some ctx.commandId) newId moves w (w.endSwitch thread.id ref mark) := effects_endSwitch ..
  unfold modelSent
  dsimp only
  split
  · exact hend.trans (effects_threw ctx)
  · exact hend.trans (effects_answer ..)
  · exact hend.trans (effects_answer ..)
  · exact hend.trans (effects_commit fun w' => effects_commits (.inr rfl) (by simp))
  · exact hend.trans (effects_answer ..)
  · exact hend.trans (effects_answer ..)
  · exact hend.trans (effects_answer ..)

/-! ### message.dispatch -/

theorem effects_startPath (thread : ServerThread) (text : String) (attachments : List ChatAttachment)
    (ctx : EffectContext) : Effects (some ctx.commandId) newId moves w (w.startPath thread text attachments ctx) :=
  effects_send (by simp) (fun _ _ => rfl) fun _ _ => .inr rfl

theorem effects_enqueueRow (text : String) (attachments : List ChatAttachment) (ctx : EffectContext)
    (hrows : (rows = w.listQueued thread.id ∨ rows = []) ∨ moves thread.id) :
    Effects (some ctx.commandId) (some id) moves w (w.enqueueRow thread text attachments ctx rows id) := by
  unfold enqueueRow
  dsimp only
  split
  · exact effects_threw ctx
  · rename_i h
    refine (effects_commit? (fun w' => effects_writes_cons (.inr rfl) (by simp) ?_) h).trans
      ((effects_of_beside (beside_observe rfl)).trans (effects_schedule _))
    exact .inr (hrows.imp_left fun hbase => ⟨rows, _, rfl, hbase, rfl, rfl⟩)

theorem effects_steerRow (text : String) (attachments : List ChatAttachment) (ctx : EffectContext) (id : String)
    (hmoves : moves thread.id) :
    Effects (some ctx.commandId) newId moves w (w.steerRow thread text attachments ctx id) := by
  unfold steerRow
  dsimp only
  split
  · exact effects_answer ..
  · split
    · exact effects_threw ctx
    · rename_i m h
      have hm : Effects (some ctx.commandId) newId moves w (m.observe (.accepted thread.id id)) :=
        (effects_commit? (fun w' => effects_writes_cons (.inr rfl) (by simp) (.inr (.inr hmoves))) h).trans
          (effects_of_beside (beside_observe rfl))
      split
      · exact hm
      · exact hm.trans (effects_spawn rfl (.inl rfl))

theorem effects_enqueue (thread : ServerThread) (text : String) (attachments : List ChatAttachment)
    (ctx : EffectContext) (id : String) :
    Effects (some ctx.commandId) (some id) moves w (w.enqueue thread text attachments ctx id) := by
  unfold enqueue
  split_ifs
  · exact effects_answer ..
  · dsimp only
    split_ifs
    · exact effects_spawn rfl (.inr rfl)
    · exact effects_enqueueRow _ _ _ (.inl (.inl rfl))

theorem effects_dispatch (threadId text : String) (attachments : List ChatAttachment) (mode : DispatchMode)
    (ctx : EffectContext) (id : String) :
    Effects (some ctx.commandId) (some id) moves w (w.dispatch threadId text attachments mode ctx id) := by
  unfold dispatch
  split_ifs
  · exact effects_answer ..
  · split
    · exact effects_answer ..
    · dsimp only
      split
      · exact effects_answer ..
      · split_ifs
        · exact effects_answer ..
        · split
          · exact effects_answer ..
          · split
            · exact effects_answer ..
            · split
              · split_ifs
                · exact effects_answer ..
                · exact effects_startPath ..
                · exact effects_spawn rfl (.inr rfl)
              · exact effects_enqueue ..
              · split_ifs
                · exact effects_answer ..
                · exact effects_startPath ..
                · exact effects_answer ..
                · exact effects_answer ..
                · exact effects_enqueue ..
                · exact effects_spawn rfl (.inr rfl)

theorem effects_startSent (thread : ServerThread) (ctx : EffectContext) (ref mark : Nat) (hnotices : Notices result) :
    Effects (some ctx.commandId) newId moves w (w.startSent thread ctx ref mark result) := by
  have hback : Effects (some ctx.commandId) newId moves w (w.sendBack thread.id .start ref mark result) :=
    effects_sendBack (by simp)
  have hfailed (reason : String) (message : Option String) (delivered : Option Bool) (queuedId : Option String) :
      ∀ draft ∈ [dispatchFailed thread.id reason message delivered queuedId],
        draft.payload.type ≠ .queueUpdated := by simp [dispatchFailed, Payload.type]
  unfold startSent
  dsimp only
  split
  · exact hback.trans (effects_answer ..)
  · exact hback.trans (effects_answer ..)
  · exact hback.trans (effects_commit fun w' => effects_commits (.inr rfl)
      fun draft hdraft => ne_queueUpdated_of_isDispatchNotice (hnotices _ rfl draft hdraft))
  · exact hback.trans (effects_commit fun w' => effects_commits (.inr rfl) (hfailed _ _ _ _))
  · exact hback.trans (effects_commit fun w' => effects_commits (.inr rfl) (hfailed _ _ _ _))

theorem effects_dispatchOn {text : String} {attachments : List ChatAttachment} {stage : DispatchStage}
    (hmoves : stage = .steerBackground → moves thread.id)
    (hrows : ∀ rows, stage = .enqueueReady rows → rows = [] ∨ moves thread.id)
    (h : w.dispatchOn ctx thread text attachments id stage answer = some w') :
    Effects (some ctx.commandId) (some id) moves w w' := by
  unfold dispatchOn at h
  split at h <;> cases h
  · exact effects_startPath ..
  · exact effects_answer ..
  · unfold enqueueReady
    split_ifs
    · exact effects_startPath ..
    · exact effects_enqueueRow _ _ _ ((hrows _ rfl).imp_left .inr)
  · exact effects_threw ctx
  · exact effects_startPath ..
  · exact effects_steerRow _ _ _ _ (hmoves rfl)
  · exact effects_startSent _ _ _ _ (notices_deliverResult _ _ _ _ _ _ _)
  · exact (effects_sendBack (by simp)).trans (effects_threw ctx)

/-! ### Steps -/

def passes (w : World) : Action → Bool
  | .startPass _ => true
  | .resume i _ _ => (w.tasks[i]?).any (·.pass?.isSome)
  | _ => false

/-- The thread whose queue the action may put in another order: a reorder's, or a steer's. -/
def movesQueue (w : World) : Action → Option String
  | .command (.queuedReorder threadId _) _ _ => some threadId
  | .resume i _ _ => (w.tasks[i]?).bind Task.movesQueue
  | _ => none

/-- The command that the action is about: the one that arrives, or whose handler goes on, or whose batch it is. -/
def commandOf (w : World) : Action → Option String
  | .command _ ctx _ => some ctx.commandId
  | .environment _ options => options.commandId
  | .resume i _ _ => (w.tasks[i]?).bind Task.commandId
  | _ => none

theorem effects_command {command : DispatchCommand}
    (hmoves : ∀ threadId ids, command = .queuedReorder threadId ids → moves threadId) :
    Effects (some ctx.commandId) (some id) moves w (w.command ctx id command) := by
  cases command with
  | messageDispatch => exact effects_dispatch ..
  | runInterrupt => exact effects_runInterrupt ..
  | queuedReorder threadId ids => exact effects_reorder _ _ (hmoves threadId ids rfl)
  | queuedEdit => exact effects_edit ..
  | queuedCancel => exact effects_cancel ..
  | queueResume => exact effects_resumeQueue ..
  | permissionModeSet threadId mode confirmBypass =>
    simp only [World.command, setPermissionMode]
    split
    · exact effects_answer ..
    · exact effects_beginSwitch (fun _ _ => rfl) fun _ _ => .inr rfl
  | modelSet threadId model =>
    simp only [World.command, setModel]
    split
    · exact effects_answer ..
    · exact effects_beginSwitch (fun _ _ => rfl) fun _ _ => .inr rfl

theorem effects_goOn (hpass : task.pass? = none) (hready : task.readRows = [] ∨ ∀ threadId, moves threadId)
    (hmoves : ∀ threadId, task.movesQueue = some threadId → moves threadId) (h : w.goOn id task answer = some w') :
    Effects task.commandId (some id) moves w w' := by
  cases task with
  | schedule threadId =>
    cases answer <;> cases h
    exact effects_schedule _
  | holdClosed threadId =>
    cases answer <;> cases h
    exact effects_holdClosed _
  | dispatch ctx thread text attachments stage =>
    refine effects_dispatchOn (fun hstage => ?_) (fun rows hstage => ?_) h
    · subst hstage
      exact hmoves _ rfl
    · subst hstage
      exact hready.imp_right fun hall => hall thread.id
  | steer threadId rowId press stage => exact effects_steerOn (hmoves _ rfl) h
  | pass threadId stage => cases hpass
  | interrupt ctx thread stage =>
    by_cases hpressed : ∃ result, stage = .pressed result ∧ answer = .go
    · obtain ⟨result, rfl, rfl⟩ := hpressed
      cases h
      unfold interruptPressed
      split
      · exact effects_commit fun w' => effects_commits (.inr rfl) (by simp)
      · exact effects_answer ..
      · exact effects_answer ..
    · have hmap : (w.sendInterrupt thread false stage answer).map (fun r =>
          r.1.spawn (.interrupt ctx thread r.2)) = some w' := by
        unfold goOn at h
        split at h <;> simp_all
      obtain ⟨⟨m, stage'⟩, hsend, rfl⟩ := Option.map_eq_some_iff.mp hmap
      exact (effects_sendInterrupt hsend).trans (effects_spawn rfl (.inr rfl))
  | permissionMode ctx thread mode ref mark =>
    cases answer <;> cases h <;> exact effects_permissionModeSet ..
  | model ctx thread ref mark =>
    cases answer <;> cases h <;> exact effects_modelSent ..

theorem handlers_take {i : Nat} {commandId : String} (htask : w.tasks[i]? = some task)
    (h : task.answers commandId = false) :
    (w.take i).tasks.filter (·.answers commandId) = w.tasks.filter (·.answers commandId) := by
  obtain ⟨hlt, rfl⟩ := List.getElem?_eq_some_iff.mp htask
  change (w.tasks.eraseIdx i).filter _ = _
  have hsplit : w.tasks = w.tasks.take i ++ w.tasks[i] :: w.tasks.drop (i + 1) := by simp
  rw [List.eraseIdx_eq_take_drop_succ]
  conv_rhs => rw [hsplit]
  rw [List.filter_append, List.filter_append, List.filter_cons_of_neg (by simp [h])]

theorem beside_take {i : Nat} (id : String) (htask : w.tasks[i]? = some task) (h : task.pass? = none) :
    Beside task.commandId w ((w.take i).issue id) := by
  refine ⟨rfl, .refl _, ?_, fun _ hne => handlers_take htask (Task.Mine.answers_eq_false (.inr rfl) hne), [], rfl,
    by simp⟩
  obtain ⟨hlt, rfl⟩ := List.getElem?_eq_some_iff.mp htask
  change (w.tasks.eraseIdx i).filterMap Task.pass? = w.tasks.filterMap Task.pass?
  have hsplit : w.tasks = w.tasks.take i ++ w.tasks[i] :: w.tasks.drop (i + 1) := by simp
  rw [List.eraseIdx_eq_take_drop_succ]
  conv_rhs => rw [hsplit]
  rw [List.filterMap_append, List.filterMap_append, List.filterMap_cons_none h]

theorem ids_of_run {C : World → Action → Prop} (h : Runs.Run step C w w') (hw : Turn.Ids w none none) :
    Turn.Ids w' none none :=
  Turn.run_invariant (fun _ _ ht _ _ hpart => Turn.ids_of_part ht hpart) h hw

theorem effects_step {a : Action} (hpass : w.passes a = false)
    (hready : (∀ task ∈ w.tasks, task.readRows = []) ∨ ∀ threadId, moves threadId)
    (hmoves : ∀ threadId, w.movesQueue a = some threadId → moves threadId) (h : w.step a = some w') :
    Effects (w.commandOf a) a.newId moves w w' := by
  have htimer (d : Drainer) (threadId : String) (hd : w.drainer.Counts d) :
      Effects (w.commandOf a) a.newId moves w ({ w with drainer := d }.schedule threadId) :=
    (effects_of_beside (beside_drainer hd)).trans (effects_schedule _)
  unfold step at h
  cases a with
  | command c ctx newId =>
    dsimp only at h
    split_ifs at h
    cases h
    have hissue : Beside (some ctx.commandId) w (w.issue newId) :=
      ⟨rfl, .refl _, rfl, fun _ _ => rfl, [], rfl, by simp⟩
    refine (effects_of_beside hissue).trans (effects_command fun threadId ids hc => ?_)
    exact hmoves threadId (by simp [movesQueue, hc])
  | environment drafts options =>
    dsimp only at h
    split_ifs at h with hqueue
    exact effects_commits (.inr rfl)
      (fun draft hdraft hq => hqueue (List.any_eq_true.mpr ⟨draft, hdraft, by simpa using hq⟩)) h
  | tick ms =>
    cases h
    exact effects_of_beside ⟨rfl, .refl _, rfl, fun _ _ => rfl, [], rfl, by simp⟩
  | resume i answer newId =>
    dsimp only at h
    split_ifs at h
    split at h
    · cases h
    · rename_i task htask
      have hnone : task.pass? = none := by simpa [passes, htask] using hpass
      rw [show w.commandOf (.resume i answer newId) = task.commandId by simp [commandOf, htask]]
      exact (effects_of_beside (beside_take newId htask hnone)).trans (effects_goOn hnone
        (hready.imp_left fun hall => hall task (List.mem_of_getElem? htask))
        (fun threadId hmove => hmoves threadId (by simp [movesQueue, htask, hmove])) h)
  | startPass threadId => cases hpass
  | retryFires threadId =>
    dsimp only at h
    split_ifs at h
    cases h
    exact htimer _ _ (counts_clearRetry ..)
  | runWaitFires threadId =>
    dsimp only at h
    split_ifs at h
    cases h
    exact htimer _ _ (counts_clearAwaiting ..)

end World

end Sightr
