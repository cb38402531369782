import Mathlib.Data.List.Dedup
import Sightr.Dispatch.Turn

/-!
# Every turn is a chain of parts

For each handler and each continuation, the chain of parts its turn consists of. Nothing here is about
one property of the dispatcher; the properties use only that every step is a chain of parts.
-/

namespace Sightr

open Projection

/-! ### The drainer -/

namespace Drainer

variable {d d' d'' : Drainer}

theorem Quieter.trans (h : d.Quieter d') (h' : d'.Quieter d'') : d.Quieter d'' :=
  ⟨h'.ok, h'.nextMark.trans h.nextMark, fun ref => (h'.heap ref).trans (h.heap ref),
    fun id => (h'.awaiting id).trans (h.awaiting id)⟩

theorem Quiet.refl (d : Drainer) : d.Quiet d :=
  fun hok => ⟨hok, rfl, fun _ => rfl, fun _ => rfl⟩

theorem Quiet.trans (h : d.Quiet d') (h' : d'.Quiet d'') : d.Quiet d'' :=
  fun hok => (h hok).trans (h' (h hok).ok)

variable {f : DrainState → DrainState}

section

variable (d : Drainer)

theorem quiet_modify (ref : Nat) (hf : ∀ s, (f s).awaiting = s.awaiting) : d.Quiet (d.modify ref f) := by
  have hheap (r : Nat) : ((d.modify ref f).heap r).awaiting = (d.heap r).awaiting := by
    simp only [modify, Function.update_apply]
    split_ifs with hr
    · rw [hf, hr]
    · rfl
  intro hok
  refine ⟨⟨hok.injective, hok.lt, fun r hr => hok.awaiting r (by rwa [← hheap])⟩, rfl, hheap, fun id => ?_⟩
  simp only [Drainer.awaiting]
  show (d.states id).bind _ = _
  simp only [hheap]

variable (threadId : String)

theorem quiet_modifyOf (hf : ∀ s, (f s).awaiting = s.awaiting) : d.Quiet (d.modifyOf threadId f) := by
  unfold modifyOf
  split
  · exact .refl d
  · exact d.quiet_modify _ hf

theorem quiet_clearRetry : d.Quiet (d.clearRetry threadId) :=
  d.quiet_modifyOf threadId fun _ => rfl

theorem quiet_stateOf : d.Quiet (d.stateOf threadId).1 := by
  unfold stateOf
  cases hstate : d.states threadId with
  | some ref => exact .refl d
  | none =>
    intro hok
    have hnone : (d.heap d.nextRef).awaiting = none := by
      by_contra hsome
      obtain ⟨id, hid⟩ := hok.awaiting d.nextRef hsome
      exact absurd (hok.lt id d.nextRef hid) (lt_irrefl _)
    have hheap (r : Nat) : (Function.update d.heap d.nextRef {} r).awaiting = (d.heap r).awaiting := by
      rw [Function.update_apply]
      split_ifs with hr
      · rw [hr, hnone]
      · rfl
    refine ⟨⟨fun id id' ref hid hid' => ?_, fun id ref hid => ?_, fun ref href => ?_⟩, rfl, hheap, fun id => ?_⟩
    · simp only [Function.update_apply] at hid hid'
      split_ifs at hid hid' with h h'
      · exact h.trans h'.symm
      · cases hid
        exact absurd (hok.lt id' _ hid') (lt_irrefl _)
      · cases hid'
        exact absurd (hok.lt id _ hid) (lt_irrefl _)
      · exact hok.injective id id' ref hid hid'
    · simp only [Function.update_apply] at hid
      split_ifs at hid with h
      · cases hid
        exact Nat.lt_succ_self _
      · exact (hok.lt id ref hid).trans (Nat.lt_succ_self _)
    · rw [hheap] at href
      obtain ⟨id, hid⟩ := hok.awaiting ref href
      refine ⟨id, ?_⟩
      show Function.update d.states threadId (some d.nextRef) id = some ref
      rw [Function.update_apply, if_neg]
      · exact hid
      · rintro rfl
        exact absurd (hstate.symm.trans hid) (by simp)
    · simp only [Drainer.awaiting, Function.update_apply]
      split_ifs with h
      · subst h
        simp [hstate]
      · refine congrArg (Option.bind (d.states id)) (funext fun ref => ?_)
        split_ifs with hr
        · rw [hr, hnone]
        · rfl

theorem quiet_backOff (now : Int) : d.Quiet (d.backOff threadId now) := by
  unfold backOff
  dsimp only
  split_ifs
  · exact d.quiet_stateOf threadId
  · exact (d.quiet_stateOf threadId).trans (quiet_modify _ _ fun _ => rfl)

end

theorem quiet_of_eq (hstates : d'.states = d.states) (hheap : d'.heap = d.heap) (href : d'.nextRef = d.nextRef)
    (hmark : d'.nextMark = d.nextMark) : d.Quiet d' := by
  intro hok
  refine ⟨⟨?_, ?_, ?_⟩, hmark, fun _ => by rw [hheap], fun id => by
    simp only [Drainer.awaiting, hstates, hheap]⟩
  · rw [hstates]
    exact hok.injective
  · rw [hstates, href]
    exact hok.lt
  · rw [hstates, hheap]
    exact hok.awaiting

theorem quiet_schedule (d : Drainer) (threadId : String) : d.Quiet (d.schedule threadId) := by
  unfold schedule
  split_ifs
  · exact .refl d
  · exact quiet_of_eq rfl rfl rfl rfl

theorem quiet_beginPass (d : Drainer) (threadId : String) : d.Quiet (d.beginPass threadId) :=
  have hqueued : d.Quiet { d with queuedPass := d.queuedPass.filter (· ≠ threadId) } := quiet_of_eq rfl rfl rfl rfl
  hqueued.trans (quiet_clearRetry _ threadId)

end Drainer

namespace Turn

/-! ### Asides -/

theorem Aside.refl (w : World) : Aside w w := ⟨rfl, rfl, rfl, rfl, rfl, .refl _, [], by simp⟩

variable {w w' : World}

theorem Aside.trans {w'' : World} (h : Aside w w') (h' : Aside w' w'') : Aside w w'' := by
  obtain ⟨answers, hlog⟩ := h.log
  obtain ⟨answers', hlog'⟩ := h'.log
  refine ⟨h'.db.trans h.db, h'.now.trans h.now, h'.interrupting.trans h.interrupting,
    h'.issued.trans h.issued, h'.tasks.trans h.tasks, h.drainer.trans h'.drainer,
    answers' ++ answers, ?_⟩
  rw [hlog', hlog, List.map_append, List.append_assoc]

theorem aside_answer (w : World) (ctx : EffectContext) (outcome : EffectOutcome) : Aside w (w.answer ctx outcome) :=
  ⟨rfl, rfl, rfl, rfl, rfl, .refl _, [(ctx.commandId, some outcome)], rfl⟩

theorem aside_threw (w : World) (ctx : EffectContext) : Aside w (w.threw ctx) :=
  ⟨rfl, rfl, rfl, rfl, rfl, .refl _, [(ctx.commandId, none)], rfl⟩

theorem aside_drainer {d : Drainer} (h : w.drainer.Quiet d) : Aside w { w with drainer := d } :=
  ⟨rfl, rfl, rfl, rfl, rfl, h, [], by simp⟩

theorem aside_schedule (w : World) (threadId : String) : Aside w (w.schedule threadId) :=
  aside_drainer (Drainer.quiet_schedule _ threadId)

theorem aside_backOff (w : World) (threadId : String) : Aside w (w.backOff threadId) :=
  aside_drainer (Drainer.quiet_backOff _ threadId _)

theorem aside_setFailures (w : World) (ref failures : Nat) : Aside w (w.setFailures ref failures) :=
  aside_drainer (Drainer.quiet_modify _ ref fun _ => rfl)

/-! ### Ending a turn -/

def done (t : Turn) (w : World) : Turn := { t with world := w, running := none, fresh := none }

def Idle (t : Turn) : Prop := ∀ task ∈ t.running, task.sending = none

variable {t : Turn}

theorem idle_of_none (h : t.running = none) : t.Idle := by
  intro task htask
  rw [h] at htask
  cases htask

variable {task : Task} {answer : World.Answer}

theorem Resumes.idle (h : t.Resumes task answer) (hsend : task.sending = none) : t.Idle := by
  intro task' htask'
  rw [h.1] at htask'
  cases htask'
  exact hsend

theorem parts_over (h : t.Idle) : Parts t (t.done t.world) := .single (.ended h)

theorem parts_aside (h : t.Idle) (haside : Aside t.world w) : Parts t (t.done w) :=
  .tail (.single (.aside haside)) (.ended h)

theorem parts_answer (h : t.Idle) (ctx : EffectContext) (outcome : EffectOutcome) :
    Parts t (t.done (t.world.answer ctx outcome)) := parts_aside h (aside_answer _ ctx outcome)

theorem parts_spawn (h : t.Spawns task) : Parts t (t.done (t.world.spawn task)) :=
  .tail (.single (.spawn h)) (.ended (idle_of_none rfl))

variable {threadId : String}

theorem parts_send {path : SendPath} {task : Nat → Nat → Task} (h : t.Sends threadId path task) :
    Parts t (t.done (t.world.send threadId path task)) :=
  .tail (.single (.send h)) (.ended (idle_of_none rfl))

/-! ### Commits -/

variable {drafts : List EventDraft} {ctx : EffectContext}

theorem commit?_eq_some (h : w.commit? drafts ctx threadId = some w') : ∃ m,
      w.append drafts { commandId := some ctx.commandId, receipt := some ctx.receipt } = some m ∧
        w' = m.answer ctx (.ok m.db.lastSequence threadId) := by
  obtain ⟨m, hm, rfl⟩ := Option.map_eq_some_iff.mp h
  exact ⟨m, hm, rfl⟩

theorem parts_commit_notices (h : t.Idle) (ctx : EffectContext) (threadId : String)
    (hdrafts : AllNotices drafts) :
    Parts t (t.done (t.world.commit drafts ctx threadId)) := by
  unfold World.commit
  cases hcommit : t.world.commit? drafts ctx threadId with
  | none => exact parts_aside h (aside_threw _ ctx)
  | some w =>
    obtain ⟨m, hm, rfl⟩ := commit?_eq_some hcommit
    exact .head (.noted (World.noted_append hdrafts hm)) (parts_aside (t := { t with world := m }) h
      (aside_answer m ctx _))

theorem parts_commit_modePatch (h : t.Idle) (thread : ServerThread) (mode : String) (ctx : EffectContext)
    (threadId : String) :
    Parts t (t.done (t.world.commit (t.world.modePatch thread mode) ctx threadId)) := by
  unfold World.commit
  cases hcommit : t.world.commit? (t.world.modePatch thread mode) ctx threadId with
  | none => exact parts_aside h (aside_threw _ ctx)
  | some w =>
    obtain ⟨m, hm, rfl⟩ := commit?_eq_some hcommit
    exact .head (.noted (World.noted_modePatch hm)) (parts_aside (t := { t with world := m }) h
      (aside_answer m ctx _))

variable {rows : List QueuedMessage} {change : Option QueueChange} {reason : Option String} {after : List EventDraft}
  {options : AppendOptions}

theorem parts_rewrote (h : t.Idle) (hrows : t.Edits threadId rows)
    (hafter : AllNotices after)
    (happ : t.world.append (queueEvent threadId rows change reason :: after) options = some w) (haside : Aside w w') :
    Parts t (t.done w') := by
  have hrewrote := World.rewrote_append_cons hafter happ
  exact .head (.rewrote hrewrote hrows) (parts_aside (t := { t with world := w }) h haside)

theorem parts_rewrote_getD (h : t.Idle) (hrows : t.Edits threadId rows)
    (hafter : AllNotices after) :
    Parts t (t.done ((t.world.append (queueEvent threadId rows change reason :: after) options).getD t.world)) := by
  cases happ : t.world.append (queueEvent threadId rows change reason :: after) options with
  | none => exact parts_over h
  | some w => exact parts_rewrote h hrows hafter happ (.refl w)

theorem parts_commit_queue (h : t.Idle) (ctx : EffectContext) (hrows : t.Edits threadId rows) :
    Parts t (t.done (t.world.commit [queueEvent threadId rows change] ctx threadId)) := by
  unfold World.commit
  cases hcommit : t.world.commit? [queueEvent threadId rows change] ctx threadId with
  | none => exact parts_aside h (aside_threw _ ctx)
  | some w =>
    obtain ⟨m, hm, rfl⟩ := commit?_eq_some hcommit
    exact parts_rewrote h hrows (by simp) hm (aside_answer m ctx _)

/-! ### Edits of a queue -/

theorem edits_map (f : QueuedMessage → QueuedMessage) (hid : ∀ r, (f r).id = r.id)
    (hstate : ∀ r, (f r).state = .held ∨ (f r).state = r.state ∨ t.Frees threadId) :
    t.Edits threadId ((t.world.listQueued threadId).map f) := by
  refine ⟨fun r hr => ⟨f r, List.mem_map_of_mem hr, hid r⟩, fun r' hr' => ?_, fun r' hr' => ?_⟩
  · obtain ⟨r, hr, rfl⟩ := List.mem_map.mp hr'
    exact ⟨r, hr, (hid r).symm⟩
  · obtain ⟨r, hr, rfl⟩ := List.mem_map.mp hr'
    rcases hstate r with hheld | hsame | hfrees
    · exact .inl hheld
    · exact .inr (.inl ⟨r, hr, (hid r).symm, hsame.symm⟩)
    · exact .inr (.inr hfrees)

variable {rowId : String} {row : QueuedMessage}

theorem edits_swap (next : QueuedMessage) (hrow : row ∈ t.world.listQueued threadId) (hid : row.id = rowId)
    (hnext : next.id = rowId) (hstate : next.state = .held ∨ t.Frees threadId)
    (hrows : ∀ r, r ∈ rows ↔ r = next ∨ r ∈ t.world.listQueued threadId ∧ r.id ≠ rowId) :
    t.Edits threadId rows := by
  refine ⟨fun r hr => ?_, fun r' hr' => ?_, fun r' hr' => ?_⟩
  · by_cases h : r.id = rowId
    · exact ⟨next, (hrows next).mpr (.inl rfl), hnext.trans h.symm⟩
    · exact ⟨r, (hrows r).mpr (.inr ⟨hr, h⟩), rfl⟩
  · rcases (hrows r').mp hr' with rfl | ⟨h, -⟩
    · exact ⟨row, hrow, hid.trans hnext.symm⟩
    · exact ⟨r', h, rfl⟩
  · rcases (hrows r').mp hr' with rfl | ⟨h, -⟩
    · exact hstate.imp_right .inr
    · exact .inr (.inl ⟨r', h, rfl, rfl⟩)

theorem edits_reorder {ids : List String} (hlength : ids.length = (t.world.listQueued threadId).length)
    (hdedup : ids.dedup.length = (t.world.listQueued threadId).length)
    (hall : ∀ id ∈ ids, ∃ r ∈ t.world.listQueued threadId, r.id = id) :
    t.Edits threadId ((ids.filterMap fun id =>
      (t.world.listQueued threadId).find? (·.id = id)).mapIdx
        fun position row => { row with position := position }) := by
  have hnodup : ids.Nodup := by
    rw [← List.dedup_eq_self]
    exact (List.dedup_sublist ids).eq_of_length (hdedup.trans hlength.symm)
  have hmem (r' : QueuedMessage) : r' ∈ (ids.filterMap fun id =>
      (t.world.listQueued threadId).find? (·.id = id)) ↔ r' ∈ t.world.listQueued threadId := by
    have hfind (r : QueuedMessage) (hr : r ∈ t.world.listQueued threadId) :
        (t.world.listQueued threadId).find? (·.id = r.id) = some r := by
      cases hf : (t.world.listQueued threadId).find? (·.id = r.id) with
      | none => simpa using List.find?_eq_none.mp hf r hr
      | some s =>
        have hid : s.id = r.id := by simpa using List.find?_some hf
        have hrows : ((t.world.listQueued threadId).map (·.id)).Nodup := nodup_listQueued _ _
        exact congrArg some (List.inj_on_of_nodup_map hrows (List.mem_of_find?_eq_some hf) hr hid)
    have hsubset : ids ⊆ (t.world.listQueued threadId).map (·.id) := by
      intro id hid
      obtain ⟨r, hr, hrid⟩ := hall id hid
      exact List.mem_map.mpr ⟨r, hr, hrid⟩
    have hperm : ids.Perm ((t.world.listQueued threadId).map (·.id)) :=
      (List.subperm_of_subset hnodup hsubset).perm_of_length_le (by simp [hlength])
    rw [List.mem_filterMap]
    constructor
    · rintro ⟨id, -, hid⟩
      exact List.mem_of_find?_eq_some hid
    · intro hr
      exact ⟨r'.id, hperm.mem_iff.mpr (List.mem_map.mpr ⟨r', hr, rfl⟩), hfind r' hr⟩
  refine ⟨fun r hr => ?_, fun r' hr' => ?_, fun r' hr' => ?_⟩
  · obtain ⟨i, hi, rfl⟩ := List.getElem_of_mem ((hmem r).mpr hr)
    exact ⟨_, List.mem_mapIdx.mpr ⟨i, hi, rfl⟩, rfl⟩
  · obtain ⟨i, hi, rfl⟩ := List.mem_mapIdx.mp hr'
    exact ⟨_, (hmem _).mp (List.getElem_mem hi), rfl⟩
  · obtain ⟨i, hi, rfl⟩ := List.mem_mapIdx.mp hr'
    exact .inr (.inl ⟨_, (hmem _).mp (List.getElem_mem hi), rfl, rfl⟩)

variable {p : Projection} {id : String} {next : Option QueuedMessage}

section

variable (h : withRow p threadId id next = some rows)
include h

theorem mem_withRow (r : QueuedMessage) : r ∈ rows ↔ r ∈ next ∨ r ∈ p.listQueued threadId ∧ r.id ≠ id := by
  unfold withRow at h
  dsimp only at h
  split_ifs at h with hany
  cases h
  simp only [List.mem_flatMap]
  constructor
  · rintro ⟨s, hs, hr⟩
    split_ifs at hr with hid
    · obtain rfl := List.mem_singleton.mp hr
      exact .inr ⟨hs, hid⟩
    · exact .inl (Option.mem_toList.mp hr)
  · rintro (hr | ⟨hr, hid⟩)
    · have hany' : ∃ s ∈ p.listQueued threadId, s.id = id := by simpa using hany
      obtain ⟨s, hs, hsid⟩ := hany'
      exact ⟨s, hs, by simpa [hsid] using hr⟩
    · exact ⟨r, hr, by simp [hid]⟩

theorem exists_of_withRow : ∃ r ∈ p.listQueued threadId, r.id = id := by
  unfold withRow at h
  dsimp only at h
  split_ifs at h with hany
  simpa using hany

end

theorem edits_withRow {next : QueuedMessage} (h : withRow t.world.db.projection threadId id (some next) = some rows)
    (hnext : next.id = id) (hstate : next.state = .held ∨ t.Frees threadId) :
    t.Edits threadId rows := by
  obtain ⟨row, hrow, hid⟩ := exists_of_withRow h
  refine edits_swap next hrow hid hnext hstate fun r => ?_
  rw [mem_withRow h]
  simp [eq_comm, World.listQueued]

/-! ### message.dispatch -/

theorem Resumes.keepsTasks (h : t.Resumes task answer) : t.KeepsTasks := by
  obtain ⟨-, i, newId, drainer, -, -, -, hworld⟩ := h
  intro task' htask'
  rw [hworld] at htask'
  exact .inl (List.mem_of_mem_eraseIdx htask')

variable {thread : ServerThread}

theorem archived_eq_false (hthread : w.getThread threadId = some thread) (hshelf : thread.shelf ≠ .archived) :
    w.archived threadId = false := by
  simp [World.archived, hthread, hshelf]

theorem id_of_getThread (h : w.getThread threadId = some thread) : thread.id = threadId :=
  Keyed.Table.key_of_find? h

theorem parts_startPath {t : Turn} {thread : ServerThread} (hrun : t.running = none)
    (hthread : t.world.getThread thread.id = some thread) (hshelf : thread.shelf ≠ .archived)
    (hblocked : t.world.blocked thread = false) (text : String) (attachments : List ChatAttachment)
    (ctx : EffectContext) : Parts t (t.done (t.world.startPath thread text attachments ctx)) :=
  parts_send (.start hrun (by simp [World.takesMessages, hthread, hshelf, hblocked]))

variable {text newId : String} {attachments : List ChatAttachment}

theorem noticesOf_deliverResult {intent : UserMessageInputIntent} {now : Int} {result : GuardedSendResult}
    {events : List EventDraft} (h : deliverResult thread text attachments intent now newId result = .sent events) :
    NoticesOf thread.id events := by
  unfold deliverResult at h
  split at h <;> try split at h
  all_goals cases h
  intro draft hdraft
  unfold userItem at hdraft
  split_ifs at hdraft
  · cases hdraft
  · obtain rfl := List.mem_singleton.mp hdraft
    refine ⟨rfl, fun item hitem => ?_⟩
    cases hitem
    rfl

theorem isSent_deliverResult (thread : ServerThread) (text : String)
    (attachments : List ChatAttachment) (intent : UserMessageInputIntent) (now : Int)
    (newId : String) (result : GuardedSendResult) :
    (deliverResult thread text attachments intent now newId result).isSent = (World.Answer.send result).isSent := by
  unfold deliverResult
  split <;> try split
  all_goals rfl

theorem isDone_deliverResult (thread : ServerThread) (text : String)
    (attachments : List ChatAttachment) (intent : UserMessageInputIntent) (now : Int)
    (newId : String) (result : GuardedSendResult) :
    (deliverResult thread text attachments intent now newId result).isDone = (World.Answer.send result).isDone := by
  unfold deliverResult
  split <;> try split
  all_goals first | rfl | simp_all [DeliverResult.isDone, World.Answer.isDone]

variable {ref mark : Nat} {result : DeliverResult}

theorem parts_startSent (h : t.Resumes (.dispatch ctx thread text attachments (.sending ref mark)) answer)
    (hsent : result.isSent = answer.isSent) (hevents : ∀ events, result = .sent events → NoticesOf thread.id events) :
    Parts t (t.done (t.world.startSent thread ctx ref mark result)) := by
  refine .head (.sendBack h rfl hsent (.inl rfl)) ?_
  have hidle : Idle { t with
      world := t.world.sendBack thread.id .start ref mark result, running := none } :=
    idle_of_none rfl
  cases result with
  | sent events => exact parts_commit_notices hidle ctx _ fun d hd => (hevents events rfl d hd).1
  | delivered message => exact parts_commit_notices hidle ctx _ (by simp [dispatchFailed, isDispatchNotice,
      Payload.type])
  | failed reason message => exact parts_commit_notices hidle ctx _ (by simp [dispatchFailed, isDispatchNotice,
      Payload.type])
  | skipped reason => cases reason <;> exact parts_answer hidle ctx _

theorem parts_enqueueRow {base : List QueuedMessage} (hidle : t.Idle) (hid : t.fresh = some newId)
    (hbase : base = t.world.listQueued thread.id ∨ ∃ ctx thread' text attachments, thread'.id = thread.id ∧
      t.Resumes (.dispatch ctx thread' text attachments (.enqueueReady base)) (.composer (some false)))
    (hfrees : t.Frees thread.id) :
    Parts t (t.done (t.world.enqueueRow thread text attachments ctx base newId)) := by
  unfold World.enqueueRow
  dsimp only
  split
  · exact parts_aside hidle (aside_threw _ ctx)
  · rename_i w hcommit
    obtain ⟨m, hm, rfl⟩ := commit?_eq_some hcommit
    have hadded := @Part.added t thread.id base _ (t.world.newRow thread text attachments base.length
      .queue .queued newId) m _ [] hidle hid hbase (fun r => by simp [or_comm]) hfrees
      (World.rewrote_append_cons (by simp) hm) (aside_answer m ctx (.ok m.db.lastSequence thread.id))
      (.inl rfl)
    rw [List.append_nil] at hadded
    exact .head hadded (parts_aside (idle_of_none rfl) (aside_schedule _ thread.id))

structure Commands (t : Turn) (command : DispatchCommand) (ctx : EffectContext) (newId : String) : Prop where
  running : t.running = none
  fresh : t.fresh = some newId
  action : t.action = .command command ctx newId
  world : t.world = t.start.issue newId

variable {command : DispatchCommand}

theorem Commands.idle (h : t.Commands command ctx newId) : t.Idle := idle_of_none h.running

theorem parts_enqueue (hrun : t.running = none) (hid : t.fresh = some newId)
    (hthread : t.world.getThread thread.id = some thread) (hshelf : thread.shelf ≠ .archived) (text : String)
    (attachments : List ChatAttachment) :
    Parts t (t.done (t.world.enqueue thread text attachments ctx newId)) := by
  unfold World.enqueue
  dsimp only
  split_ifs with hcaps hempty
  · exact parts_answer (idle_of_none hrun) ctx _
  · have hrows : t.world.listQueued thread.id = [] := by
      simp only [Bool.and_eq_true, List.isEmpty_iff] at hempty
      exact hempty.1.1
    rw [hrows]
    exact parts_spawn (.dispatch hrun (.inr (.inr rfl)))
  · exact parts_enqueueRow (idle_of_none hrun) hid (.inl rfl) (.inl (archived_eq_false hthread hshelf))

variable {ready : Option Bool}

theorem parts_enqueueReady (hid : t.fresh = some newId)
    (h : t.Resumes (.dispatch ctx thread text attachments (.enqueueReady rows)) (.composer ready)) :
    Parts t (t.done (t.world.enqueueReady thread text attachments ctx rows ready newId)) := by
  unfold World.enqueueReady
  split_ifs with hready
  · exact parts_send (.waited h (.inr ⟨rows, ready, rfl, rfl, hready⟩))
  · obtain rfl : ready = some false := not_not.mp hready
    have hfrees : t.Frees thread.id := by
      obtain ⟨-, i, newId', drainer, haction, htask, -, -⟩ := h
      exact .inr (by simp [World.writesBack, haction, htask])
    exact parts_enqueueRow (h.idle rfl) hid (.inr ⟨ctx, thread, text, attachments, rfl, h⟩) hfrees

theorem parts_steerRow (hid : t.fresh = some newId)
    (h : t.Resumes (.dispatch ctx thread text attachments .steerBackground) (.screen false)) :
    Parts t (t.done (t.world.steerRow thread text attachments ctx newId)) := by
  have hidle : t.Idle := h.idle rfl
  have hsame : t.world.pressedRecently thread.id = t.start.pressedRecently thread.id ∧
      t.world.interruptRefusal thread = t.start.interruptRefusal thread := by
    obtain ⟨-, i, newId', drainer, -, -, -, hworld⟩ := h
    rw [hworld]
    exact ⟨rfl, rfl⟩
  unfold World.steerRow
  dsimp only
  split
  · exact parts_answer hidle ctx _
  · rename_i hrefusal
    have hgoes : t.world.pressedRecently thread.id = true ∨ t.world.interruptRefusal thread = none := by
      split_ifs at hrefusal with hpressed
      · exact .inl hpressed
      · exact .inr hrefusal
    split
    · exact parts_aside hidle (aside_threw _ ctx)
    · rename_i w hcommit
      obtain ⟨m, hm, rfl⟩ := commit?_eq_some hcommit
      have hfrees : t.Frees thread.id := by
        obtain ⟨-, i, newId', drainer, haction, htask, -, -⟩ := h
        refine .inr ?_
        rw [hsame.1, hsame.2] at hgoes
        rcases hgoes with hgoes | hgoes <;> simp [World.writesBack, haction, htask, hgoes]
      have hadded (extra : List Task) (hextra : t.Follows thread.id newId extra) :=
        @Part.added t thread.id _ _ (t.world.newRow thread text attachments (-1) .steer .sending newId)
          m _ extra hidle hid (.inl rfl) (fun r => List.mem_cons) hfrees
          (World.rewrote_append_cons (by simp) hm)
          (aside_answer m ctx (.ok m.db.lastSequence thread.id)) hextra
      split
      · have hpart := hadded [] (.inl rfl)
        rw [List.append_nil] at hpart
        exact .tail (.single hpart) (.ended (idle_of_none rfl))
      · rename_i fresh hfresh
        refine .tail (.single (hadded [.steer thread.id newId (!t.world.pressedRecently thread.id)
          (.background fresh)] (.inr ⟨_, fresh, rfl, id_of_getThread hfresh, fun hpress => ?_⟩)))
          (.ended (idle_of_none rfl))
        simpa using hpress

theorem parts_dispatch {mode : DispatchMode}
    (h : t.Commands (.messageDispatch threadId text attachments mode) ctx newId) :
    Parts t (t.done (t.world.dispatch threadId text attachments mode ctx newId)) := by
  have hidle := h.idle
  unfold World.dispatch
  split
  · exact parts_answer hidle ctx _
  · split
    · exact parts_answer hidle ctx _
    · dsimp only
      split
      · exact parts_answer hidle ctx _
      · split
        · exact parts_answer hidle ctx _
        · split
          · exact parts_answer hidle ctx _
          · rename_i thread hthread
            obtain rfl := id_of_getThread hthread
            split
            · exact parts_answer hidle ctx _
            · rename_i hshelf
              have hstart (hblocked : ¬t.world.blocked thread = true) :=
                @parts_startPath t thread h.running hthread hshelf (by simpa using hblocked) text
                  (cleanAttachments attachments) ctx
              cases mode with
              | start =>
                dsimp only
                split_ifs with hblocked
                · exact parts_answer hidle ctx _
                · exact hstart hblocked
                · exact parts_spawn (.dispatch h.running (.inl rfl))
              | queue => exact parts_enqueue h.running h.fresh hthread hshelf _ _
              | steer =>
                dsimp only
                split_ifs with hblocked
                · exact parts_answer hidle ctx _
                · exact hstart hblocked
                · exact parts_answer hidle ctx _
                · exact parts_answer hidle ctx _
                · exact parts_enqueue h.running h.fresh hthread hshelf _ _
                · exact parts_spawn (.dispatch h.running (.inr (.inl rfl)))

theorem parts_dispatchOn {stage : DispatchStage} (hid : t.fresh = some newId)
    (h : t.Resumes (.dispatch ctx thread text attachments stage) answer)
    (hon : t.world.dispatchOn ctx thread text attachments newId stage answer = some w) :
    Parts t (t.done w) := by
  unfold World.dispatchOn at hon
  split at hon <;> cases hon
  · exact parts_send (.waited h (.inl ⟨.inl rfl, rfl⟩))
  · exact parts_answer (h.idle rfl) ctx _
  · exact parts_enqueueReady hid h
  · exact parts_aside (h.idle rfl) (aside_threw _ ctx)
  · exact parts_send (.waited h (.inl ⟨.inr rfl, rfl⟩))
  · exact parts_steerRow hid h
  · exact parts_startSent h (isSent_deliverResult ..) fun _ => noticesOf_deliverResult
  · refine .head (.sendBack h rfl ?_ (.inl rfl)) (parts_aside (idle_of_none rfl) (aside_threw _ ctx))
    rfl

/-! ### The interrupt -/

variable {stage : InterruptStage}

theorem sendInterrupt_cases {steering : Bool} {stage' : InterruptStage}
    (h : w.sendInterrupt thread steering stage answer = some (w', stage')) :
    (∀ result, stage ≠ .pressed result) ∧ (w' = w ∨
      stage = .keys ∧ answer = .key true ∧ (∃ result, stage' = .pressed result) ∧
        w' = { w with interrupting := Function.update w.interrupting thread.id (some w.now) }.observe
          (.pressed thread.id w.now)) := by
  unfold World.sendInterrupt at h
  split at h
  case h_7 => cases h
  all_goals
    refine ⟨fun _ => by rintro ⟨⟩, ?_⟩
    repeat' split at h
    all_goals
      cases h
      first
      | exact .inl rfl
      | exact .inr ⟨rfl, rfl, ⟨_, rfl⟩, rfl⟩

theorem parts_runInterrupt (h : t.Commands (.runInterrupt threadId) ctx newId) :
    Parts t (t.done (t.world.runInterrupt threadId ctx)) := by
  unfold World.runInterrupt
  split_ifs
  · exact parts_answer h.idle ctx _
  · split
    · exact parts_answer h.idle ctx _
    · rename_i thread hthread
      obtain rfl := id_of_getThread hthread
      split
      · exact parts_answer h.idle ctx _
      · rename_i hrefusal
        have hpress : t.world.pressedRecently thread.id = false := by
          unfold World.interruptRefusal at hrefusal
          split_ifs at hrefusal with _ _ _ _ hpressed
          simpa using hpressed
        exact parts_spawn (.interrupt h.running hpress)

theorem parts_interruptPressed (h : t.Idle) (thread : ServerThread) (ctx : EffectContext) (result : InterruptResult) :
    Parts t (t.done (t.world.interruptPressed thread ctx result)) := by
  cases result with
  | ok => exact parts_commit_notices h ctx _ (by simp)
  | refused outcome => exact parts_answer h ctx _
  | maintenance => exact parts_answer h ctx _

/-! ### The background steer -/

theorem parts_holdSteer (h : t.Idle) (threadId rowId reason : String) (message : Option String) :
    Parts t (t.done (t.world.holdSteer threadId rowId reason message)) := by
  unfold World.holdSteer
  dsimp only
  split
  · rename_i row _ hrow _
    refine parts_rewrote_getD h ?_ (by simp [dispatchFailed, isDispatchNotice, Payload.type])
    have hid : row.id = rowId := by simpa using List.find?_some hrow
    exact edits_swap (heldRow { row with position := -1 } reason) (List.mem_of_find?_eq_some hrow) hid
      hid (.inl rfl) fun r => by simp
  · exact parts_over h

variable {press : Bool}

theorem parts_requeueSteer
    (h : t.Resumes (.steer threadId rowId press (.interrupting thread (.pressed .maintenance))) .go) :
    Parts t (t.done (t.world.requeueSteer threadId rowId)) := by
  have hidle : t.Idle := h.idle rfl
  unfold World.requeueSteer
  dsimp only
  split
  · rename_i row _ hrow _
    have hmem := List.mem_of_find?_eq_some hrow
    have hid : row.id = rowId := by simpa using List.find?_some hrow
    have hfrees : t.Frees threadId := by
      obtain ⟨-, i, newId, drainer, haction, htask, -, hworld⟩ := h
      have hqueued : t.start.getQueued rowId = some row := by
        rw [← hid]
        rw [hworld] at hmem
        exact (mem_listQueued.mp hmem).1
      exact .inr (by simp [World.writesBack, haction, htask, hqueued])
    split
    · exact parts_over hidle
    · rename_i w happ
      let rest := (t.world.listQueued threadId).filter (·.id ≠ rowId)
      refine parts_rewrote hidle ?_ (by simp) happ (aside_schedule w threadId)
      exact edits_swap { row with mode := .queue, state := .queued, position := rest.length } hmem hid
        hid (.inr hfrees) fun r => by simp [rest, or_comm]
  · exact parts_over hidle

theorem parts_deliverSteer {stage : SteerStage} (h : t.Resumes (.steer threadId rowId press stage) answer)
    (hsending : (Task.steer threadId rowId press stage).sending = none)
    (hsend : (∃ thread, stage = .background thread ∨ stage = .backgroundAgain thread) ∧
      answer = .screen true ∨ ∃ thread waiter due, stage = .waiting thread waiter due ∧ answer = .go ∧
      t.start.waitOver waiter due = some .settled) :
    Parts t (t.done (t.world.deliverSteer threadId rowId press)) := by
  have hsame : t.world.getThread threadId = t.start.getThread threadId ∧
      t.world.getQueued rowId = t.start.getQueued rowId := by
    obtain ⟨-, i, newId, drainer, -, -, -, hworld⟩ := h
    rw [hworld]
    exact ⟨rfl, rfl⟩
  unfold World.deliverSteer
  split
  · rename_i fresh row hfresh hrow
    split_ifs with hno
    · exact parts_over (h.idle hsending)
    · rw [hsame.1] at hfresh
      rw [hsame.2] at hrow
      simp only [Bool.or_eq_true, decide_eq_true_eq, not_or, not_not] at hno
      exact parts_send (.steer h hsend (by simp [World.steerSends, hfresh, hrow, hno]) hfresh hrow)
  · exact parts_over (h.idle hsending)

theorem parts_waitSettled {stage : SteerStage} (h : t.running = some (.steer threadId rowId press stage))
    (hsending : (Task.steer threadId rowId press stage).sending = none) (thread : ServerThread) :
    Parts t (t.done (t.world.waitSettled threadId rowId press thread)) := by
  have hwaits (drainer : Drainer) (hquiet : t.world.drainer.Quiet drainer) (waiter : Nat) (due : Int) :
      Parts t (t.done (World.spawn { t.world with drainer }
        (.steer threadId rowId press (.waiting thread waiter due)))) :=
    .head (.aside (aside_drainer hquiet)) (parts_spawn (.goesOn h (.steer ..) hsending rfl (by simp [Task.mayPress])))
  unfold World.waitSettled
  dsimp only
  exact hwaits (t.world.drainer.addWaiter threadId _) (Drainer.quiet_of_eq rfl rfl rfl rfl) _ _

theorem without_filter (w : World) (threadId rowId : String) :
    Without w threadId rowId ((w.listQueued threadId).filter (·.id ≠ rowId)) := by
  refine ⟨fun r => by simp, ?_⟩
  have hnodup : ((w.listQueued threadId).map (·.id)).Nodup := nodup_listQueued _ _
  exact hnodup.sublist (List.filter_sublist.map _)

theorem parts_steerSent (h : t.Resumes (.steer threadId rowId press (.sending thread row ref mark)) answer)
    (hsent : result.isSent = answer.isSent) (hevents : ∀ events, result = .sent events → NoticesOf thread.id events)
    (hnotices : ∀ events, result = .sent events → AllNotices events) :
    Parts t (t.done (t.world.steerSent threadId rowId ref mark result)) := by
  unfold World.steerSent
  dsimp only
  cases result with
  | sent events =>
    exact .tail (.single (.rowDone h rfl hsent rfl rfl (.refl _) (without_filter ..)
      (fun hto : thread.id = threadId => hto ▸ hevents events rfl) (fun _ hd => absurd hd List.not_mem_nil)
      (hnotices events rfl))) (.ended (idle_of_none rfl))
  | delivered message =>
    refine .tail (.single (@Part.rowDone _ _ _ _ _ _ _ _ _ _ _ [] _ _ h rfl hsent rfl rfl (.refl _)
      (without_filter ..) (fun _ _ hd => absurd hd List.not_mem_nil) ?_
      fun _ hd => absurd hd List.not_mem_nil)) (.ended (idle_of_none rfl))
    intro draft hdraft
    obtain rfl := List.mem_singleton.mp hdraft
    exact ⟨rfl, fun item hitem => by cases hitem⟩
  | skipped reason =>
    exact .head (.sendBack h rfl hsent (.inr rfl)) (parts_holdSteer (idle_of_none rfl) ..)
  | failed reason message =>
    exact .head (.sendBack h rfl hsent (.inr rfl)) (parts_holdSteer (idle_of_none rfl) ..)

theorem mayPress_interrupting_thread
    (h : (Task.steer threadId rowId press (.interrupting thread stage)).mayPress id = true) :
    decide (thread.id = id) = true := by
  cases press <;> cases stage <;> simp_all [Task.mayPress]

theorem mayPress_interrupting (press : Bool) (h : ∀ result, stage ≠ .pressed result) :
    (Task.steer threadId rowId press (.interrupting thread stage)).mayPress id = decide (thread.id = id) := by
  cases press <;> cases stage <;> simp_all [Task.mayPress]

theorem parts_steerOn {stage : SteerStage} (h : t.Resumes (.steer threadId rowId press stage) answer)
    (hdrainer : t.world.drainer = t.start.drainer)
    (hon : t.world.steerOn threadId rowId press newId stage answer = some w) :
    Parts t (t.done w) := by
  cases stage with
  | background thread =>
    cases answer with
    | screen waiting =>
      cases hon
      unfold World.steerBackground
      split_ifs with hwaiting hpress
      · obtain rfl : waiting = true := hwaiting
        exact parts_deliverSteer h rfl (.inl ⟨⟨thread, .inl rfl⟩, rfl⟩)
      · exact parts_spawn (.goesOn h.1 (.steer ..) rfl rfl (by simp [Task.mayPress, hpress]))
      · exact parts_waitSettled h.1 rfl thread
    | _ => cases hon
  | interrupting thread stage =>
    by_cases hpressed : ∃ result, stage = .pressed result ∧ answer = .go
    · obtain ⟨result, rfl, rfl⟩ := hpressed
      cases hon
      cases result with
      | ok => exact parts_waitSettled h.1 rfl thread
      | maintenance => exact parts_requeueSteer h
      | refused outcome => cases outcome <;> exact parts_holdSteer (h.idle rfl) ..
    · have hmap : (t.world.sendInterrupt thread true stage answer).map (fun r =>
          r.1.spawn (.steer threadId rowId press (.interrupting thread r.2))) = some w := by
        unfold World.steerOn at hon
        split at hon <;> simp_all
      obtain ⟨⟨w', stage'⟩, hsend, rfl⟩ := Option.map_eq_some_iff.mp hmap
      obtain ⟨hstage, rfl | ⟨rfl, rfl, ⟨result, rfl⟩, rfl⟩⟩ := sendInterrupt_cases hsend
      · exact parts_spawn (.goesOn h.1 (.steer ..) rfl rfl fun id hid => by
          rw [mayPress_interrupting press hstage]
          exact mayPress_interrupting_thread hid)
      · exact .tail (.single (.press h (.steer ..) rfl rfl rfl fun id => by cases press <;> rfl))
          (.ended (idle_of_none rfl))
  | waiting thread waiter due =>
    cases answer with
    | go =>
      obtain ⟨why, hover, rfl⟩ := Option.map_eq_some_iff.mp hon
      unfold World.steerWaited
      dsimp only
      have hquiet : t.world.drainer.Quiet (t.world.drainer.dropWaiter waiter) := Drainer.quiet_of_eq rfl rfl rfl rfl
      refine .head (.aside (aside_drainer hquiet)) ?_
      have hstart : t.start.waitOver waiter due = some why := by
        obtain ⟨-, i, newId', drainer, -, -, -, hworld⟩ := h
        have hnow : t.world.now = t.start.now := by rw [hworld]; rfl
        rwa [World.waitOver, hdrainer, hnow] at hover
      have h' : Resumes { t with world := { t.world with drainer := t.world.drainer.dropWaiter waiter } }
          (.steer threadId rowId press (.waiting thread waiter due)) .go := by
        obtain ⟨hrun, i, newId', drainer, haction, htask, hquiet', hworld⟩ := h
        refine ⟨hrun, i, newId', t.world.drainer.dropWaiter waiter, haction, htask, ?_, by rw [hworld]⟩
        rw [hworld] at hquiet
        rw [hworld]
        exact hquiet'.trans hquiet
      cases why with
      | gone => exact parts_over (h.idle rfl)
      | settled => exact parts_deliverSteer h' rfl (.inr ⟨thread, waiter, due, rfl, rfl, hstart⟩)
      | timeout => exact parts_spawn (.goesOn h.1 (.steer ..) rfl rfl (by simp [Task.mayPress]))
    | _ => cases hon
  | backgroundAgain thread =>
    cases answer with
    | screen waiting =>
      cases hon
      unfold World.steerTimedOut
      split_ifs with hwaiting
      · obtain rfl : waiting = true := hwaiting
        exact parts_deliverSteer h rfl (.inl ⟨⟨thread, .inr rfl⟩, rfl⟩)
      · exact parts_holdSteer (h.idle rfl) ..
    | _ => cases hon
  | sending thread row ref mark =>
    cases answer with
    | send result =>
      cases hon
      exact parts_steerSent h (isSent_deliverResult ..) (fun _ => noticesOf_deliverResult)
        fun _ hres draft hdraft => (noticesOf_deliverResult hres draft hdraft).1
    | threw message =>
      cases hon
      exact parts_steerSent h rfl (fun _ hres => by cases hres) fun _ hres => by cases hres
    | _ => cases hon

/-! ### Queue commands -/

theorem parts_reorder (h : t.Idle) (threadId : String) (ids : List String) (ctx : EffectContext) :
    Parts t (t.done (t.world.reorder threadId ids ctx)) := by
  unfold World.reorder
  split
  · exact parts_answer h ctx _
  · split
    · exact parts_answer h ctx _
    · dsimp only
      split_ifs with hchanged hsame
      · exact parts_answer h ctx _
      · exact parts_commit_notices h ctx _ (by simp)
      · refine parts_commit_queue h ctx ?_
        simp only [Bool.or_eq_true, decide_eq_true_eq, not_or, not_not, Bool.not_eq_true',
          Bool.not_eq_false, List.all_eq_true, List.any_eq_true] at hchanged
        obtain ⟨⟨hlength, hdedup⟩, hall⟩ := hchanged
        exact edits_reorder hlength hdedup hall

theorem parts_edit (h : t.Idle) (id text : String) (ctx : EffectContext) :
    Parts t (t.done (t.world.edit id text ctx)) := by
  unfold World.edit
  split
  · exact parts_answer h ctx _
  · split
    · exact parts_answer h ctx _
    · split
      · exact parts_answer h ctx _
      · split_ifs
        · exact parts_answer h ctx _
        · exact parts_commit_notices h ctx _ (by simp)
        · refine parts_commit_queue h ctx (edits_map _ (fun r => ?_) fun r => .inr (.inl ?_)) <;>
            split_ifs <;> rfl

theorem parts_cancel (h : t.Idle) (id : String) (ctx : EffectContext) :
    Parts t (t.done (t.world.cancel id ctx)) := by
  unfold World.cancel
  split
  · exact parts_answer h ctx _
  · split
    · exact parts_answer h ctx _
    · dsimp only
      split_ifs
      · exact parts_answer h ctx _
      · split
        · exact parts_aside h (aside_threw _ ctx)
        · rename_i w hcommit
          obtain ⟨m, hm, rfl⟩ := commit?_eq_some hcommit
          exact .tail (.single (.cancelled (without_filter ..) (World.rewrote_append_cons (by simp) hm)
            (aside_answer m ctx _))) (.ended h)

theorem parts_resumeQueue (h : t.Idle) (threadId : String) (ctx : EffectContext) :
    Parts t (t.done (t.world.resumeQueue threadId ctx)) := by
  unfold World.resumeQueue
  split
  · exact parts_answer h ctx _
  · split
    · exact parts_answer h ctx _
    · rename_i thread hthread
      obtain rfl := id_of_getThread hthread
      dsimp only
      split_ifs with hshelf
      · exact parts_answer h ctx _
      · exact parts_commit_notices h ctx _ (by simp)
      · split
        · exact parts_aside h (aside_threw _ ctx)
        · rename_i w hcommit
          obtain ⟨m, hm, rfl⟩ := commit?_eq_some hcommit
          have hfrees : t.Frees thread.id := .inl (archived_eq_false hthread hshelf)
          refine parts_rewrote h (edits_map _ (fun r => ?_) fun _ => .inr (.inr hfrees)) (by simp) hm
            ((aside_answer m ctx _).trans (aside_schedule _ thread.id))
          split_ifs <;> rfl

/-! ### Live modes -/

theorem parts_beginSwitch {task : Nat → Nat → Task} (h : t.Commands command ctx newId)
    (hbegins : t.start.beginsSwitch t.action = some threadId)
    (htask : ∀ ref mark, (task ref mark).switching = some (threadId, ref, mark)) :
    Parts t (t.done (t.world.beginSwitch threadId task)) := by
  have hdrainer : t.world.drainer = t.start.drainer := by rw [h.world]; rfl
  exact .tail (.single (.beginSwitch h.running hbegins hdrainer htask)) (.ended h.idle)

variable {mode : String}

theorem parts_setPermissionMode {confirmBypass : Bool}
    (h : t.Commands (.permissionModeSet threadId mode confirmBypass) ctx newId) :
    Parts t (t.done (t.world.setPermissionMode threadId mode confirmBypass ctx)) := by
  unfold World.setPermissionMode
  split
  · exact parts_answer h.idle ctx _
  · rename_i thread hcheck
    refine parts_beginSwitch h ?_ fun _ _ => rfl
    rw [h.world] at hcheck
    have hcheck' : t.start.permissionModeCheck threadId mode confirmBypass = .ok thread := hcheck
    simp [World.beginsSwitch, h.action, hcheck', Except.toOption]

theorem parts_setModel {model : String} (h : t.Commands (.modelSet threadId model) ctx newId) :
    Parts t (t.done (t.world.setModel threadId model ctx)) := by
  unfold World.setModel
  split
  · exact parts_answer h.idle ctx _
  · rename_i thread hcheck
    refine parts_beginSwitch h ?_ fun _ _ => rfl
    rw [h.world] at hcheck
    have hcheck' : t.start.modelCheck threadId model = .ok thread := hcheck
    simp [World.beginsSwitch, h.action, hcheck', Except.toOption]

theorem parts_permissionModeSet (h : t.running = some (.permissionMode ctx thread mode ref mark))
    (turn : Option World.PaneTurn) :
    Parts t (t.done (t.world.permissionModeSet thread mode ctx ref mark turn)) := by
  unfold World.permissionModeSet
  dsimp only
  have hidle : Idle { t with world := t.world.endSwitch thread.id ref mark, running := none } := idle_of_none rfl
  refine .head (.endSwitch h rfl) ?_
  split
  · exact parts_aside hidle (aside_threw _ ctx)
  · exact parts_answer hidle ctx _
  · exact parts_answer hidle ctx _
  · exact parts_commit_modePatch hidle ..
  · split_ifs <;> exact parts_answer hidle ctx _
  · rename_i reason presses shown
    split_ifs
    · exact parts_answer hidle ctx _
    · split
      · exact parts_aside hidle (aside_threw _ ctx)
      · rename_i w happ
        have hnoted : World.Noted (t.world.endSwitch thread.id ref mark) w := by
          cases shown with
          | none => exact World.noted_append (by simp) happ
          | some mode' => exact World.noted_modePatch happ
        exact .head (.noted hnoted) (parts_aside (t := { t with world := w, running := none })
          (idle_of_none rfl) (aside_answer w ctx _))
  · exact parts_answer hidle ctx _

theorem parts_modelSent (h : t.running = some (.model ctx thread ref mark)) (result : Option GuardedSendResult) :
    Parts t (t.done (t.world.modelSent thread ctx ref mark result)) := by
  unfold World.modelSent
  dsimp only
  have hidle : Idle { t with world := t.world.endSwitch thread.id ref mark, running := none } := idle_of_none rfl
  refine .head (.endSwitch h rfl) ?_
  split
  · exact parts_aside hidle (aside_threw _ ctx)
  · exact parts_answer hidle ctx _
  · exact parts_answer hidle ctx _
  · exact parts_commit_notices hidle ctx _ (by simp)
  all_goals exact parts_answer hidle ctx _

/-! ### The drainer -/

theorem parts_holdClosed (h : t.Idle) (threadId : String) : Parts t (t.done (t.world.holdClosed threadId)) := by
  unfold World.holdClosed
  dsimp only
  split_ifs
  · exact parts_over h
  · split
    · exact parts_over h
    · refine parts_rewrote_getD h (edits_map _ (fun r => ?_) fun r => .inl ?_) (by simp)
      · split_ifs <;> rfl
      · split_ifs with hheld
        · exact hheld
        · rfl

theorem parts_passRestart (h : t.Idle) (thread : ServerThread) (ready : Option Bool) :
    Parts t (t.done (t.world.passRestart thread ready)) := by
  unfold World.passRestart
  split
  · exact parts_over h
  · exact parts_aside h (aside_backOff _ _)
  · split
    · exact parts_over h
    · rename_i fresh hfresh
      dsimp only
      split_ifs with hno
      · exact parts_over h
      · exact parts_over h
      · simp only [Bool.or_eq_true, decide_eq_true_eq, not_or] at hno
        refine parts_rewrote_getD h (edits_map _ (fun r => ?_) fun _ =>
          .inr (.inr (.inl (archived_eq_false hfresh hno.1.1.1)))) (by simp)
        split_ifs <;> rfl

theorem parts_passStart (hrun : t.running = none) (hpass : ∀ task ∈ t.world.tasks, task.isPassOf threadId = false) :
    Parts t (t.done (t.world.passStart threadId)) := by
  have h : t.Idle := idle_of_none hrun
  unfold World.passStart
  split
  · exact parts_over h
  · split
    · exact parts_over h
    · dsimp only
      refine .head (.aside (aside_drainer (Drainer.quiet_stateOf _ threadId))) ?_
      generalize t.world.drainer.stateOf threadId = r
      have hspawn (stage : PassStage) (hsend : (Task.pass threadId stage).sending = none) :
          Parts { t with world := { t.world with drainer := r.1 } }
            (t.done (World.spawn { t.world with drainer := r.1 } (.pass threadId stage))) :=
        parts_spawn (t := { t with world := { t.world with drainer := r.1 } }) (.pass hrun hpass hsend)
      have hover : Parts { t with world := { t.world with drainer := r.1 } }
          (t.done { t.world with drainer := r.1 }) :=
        parts_over (t := { t with world := { t.world with drainer := r.1 } }) h
      split_ifs
      · exact hover
      · exact hover
      · exact hover
      · exact hspawn _ rfl
      · split
        · exact parts_aside (t := { t with world := { t.world with drainer := r.1 } }) h (aside_setFailures _ _ _)
        · exact hspawn _ rfl

variable {passRef : Nat}

theorem parts_passReady (h : t.Resumes (.pass threadId (.ready thread row passRef)) (.composer ready))
    (hdrainer : t.world.drainer = t.start.drainer) :
    Parts t (t.done (t.world.passReady threadId row passRef ready)) := by
  have hidle : t.Idle := h.idle rfl
  unfold World.passReady
  split
  · exact parts_over hidle
  · exact parts_aside hidle (aside_backOff _ _)
  · split
    · exact parts_over hidle
    · rename_i fresh hfresh
      dsimp only
      split
      · exact parts_over hidle
      · rename_i hno
        split
        · exact parts_over hidle
        · rename_i still hstill
          split
          · exact parts_over hidle
          · rename_i hqueued
            split
            · exact parts_aside hidle (aside_schedule _ _)
            · rename_i hhead
              split
              · exact parts_over hidle
              · rename_i sending hsending
                split
                · exact parts_over hidle
                · rename_i w happ
                  simp only [Bool.or_eq_true, decide_eq_true_eq, not_or, Bool.not_eq_true',
                    Bool.not_eq_false, Bool.not_eq_true] at hno hqueued hhead
                  have hid : still.id = row.id := by simpa using List.find?_some hstill
                  have hrewrote := World.rewrote_append_cons (by simp) happ
                  have hedits : t.Edits threadId sending := edits_withRow hsending hid
                    (.inr (.inl (archived_eq_false hfresh hno.1.1)))
                  refine .head (.rewrote hrewrote hedits) ?_
                  refine parts_send (t := { t with world := w }) ?_
                  have hkeeps := h.keepsTasks
                  obtain ⟨hrun, i, newId, drainer, haction, htask, -, hworld⟩ := h
                  have hdb : t.world.db = t.start.db := by rw [hworld]; rfl
                  refine .drained haction htask hrun ?_ ?_ ?_ ?_ ?_ ?_ hid ?_
                  · have hlist : t.world.listQueued threadId = t.start.listQueued threadId := by
                      rw [World.listQueued, hdb]; rfl
                    rw [hdrainer] at hno
                    rw [hlist] at hstill hqueued hhead
                    have hfresh' : t.start.getThread threadId = some fresh := by
                      rw [← hfresh, World.getThread, World.getThread, hdb]
                    have hawait : t.start.drainer.awaiting threadId = none := by simpa using hno.2
                    simp [World.passTakes, hfresh', hno, hawait, hstill, not_not.mp hqueued.1,
                      hqueued.2, not_not.mp hhead]
                  · rw [hrewrote.threads, hdb]
                  · rw [hrewrote.requests, hdb]
                  · rw [hrewrote.drainer, hdrainer]
                  · intro task htask'
                    obtain ⟨ids, hids⟩ := hrewrote.tasks
                    rw [hids] at htask'
                    rcases List.mem_append.mp htask' with htask' | htask'
                    · exact hkeeps task htask'
                    · obtain ⟨id, -, rfl⟩ := List.mem_map.mp htask'
                      exact .inr ⟨id, rfl⟩
                  · rw [← hfresh, World.getThread, World.getThread, hdb]
                  · obtain ⟨position, hkept⟩ := hrewrote.queue.kept { still with state := .sending }
                      ((mem_withRow hsending _).mpr (.inl rfl))
                    exact ⟨_, hid ▸ hkept, rfl⟩

theorem without_without (w : World) (threadId rowId : String) :
    Without w threadId rowId (w.without threadId rowId) := by
  have hfilter : w.without threadId rowId = (w.listQueued threadId).filter (·.id ≠ rowId) := by
    have hflat (l : List QueuedMessage) :
        (l.flatMap fun r => if r.id ≠ rowId then [r] else []) = l.filter (·.id ≠ rowId) := by
      induction l with
      | nil => rfl
      | cons r l ih =>
        rw [List.flatMap_cons, List.filter_cons, ih]
        by_cases hr : r.id = rowId <;> simp [hr]
    unfold World.without withRow
    dsimp only
    split_ifs with hany
    · rw [Option.getD_none, List.filter_eq_self.mpr]
      intro r hr
      have hnone : (w.db.projection.listQueued threadId).any (·.id = rowId) = false := by
        simpa using hany
      simpa using List.any_eq_false.mp hnone r hr
    · rw [Option.getD_some]
      exact hflat _
  rw [hfilter]
  exact without_filter w threadId rowId

theorem parts_putBack {next : World → World} (h : t.Idle)
    (hfrees : (∃ r ∈ t.world.listQueued threadId, r.id = row.id) → t.Frees threadId) (hnext : ∀ w, Aside w (next w)) :
    Parts t (t.done (t.world.putBack threadId row next)) := by
  unfold World.putBack
  split
  · exact parts_aside h (hnext _)
  · rename_i rows hrows
    split
    · exact parts_over h
    · rename_i w happ
      exact parts_rewrote h (edits_withRow hrows rfl (.inr (hfrees (exists_of_withRow hrows))))
        (by simp) happ (hnext w)

theorem failures_finishSend (d : Drainer) (ref mark r : Nat) (sent : Bool) (status : ThreadStatus)
    (now : Int) : ((d.finishSend ref mark sent status now).heap r).failures = (d.heap r).failures := by
  have hmodify (f : DrainState → DrainState) (hf : ∀ s, (f s).failures = s.failures) :
      ((d.modify ref f).heap r).failures = (d.heap r).failures := by
    simp only [Drainer.modify, Function.update_apply]
    split_ifs with hr
    · rw [hf, hr]
    · rfl
  unfold Drainer.finishSend
  split
  · rfl
  · split_ifs
    · rfl
    · exact hmodify _ fun _ => rfl
    · exact hmodify _ fun _ => rfl
    · exact hmodify _ fun _ => rfl

theorem parts_holdFailed {reason message : String} (h : t.Idle) : Parts t (t.done
      (match withRow t.world.db.projection threadId row.id (some (heldRow row reason)) with
      | none => t.world
      | some rows =>
        (t.world.append [queueEvent threadId rows (some .held) (some reason),
          dispatchFailed threadId reason (some message) none (some row.id)]).getD t.world)) := by
  split
  · exact parts_over h
  · rename_i rows hrows
    exact parts_rewrote_getD h (edits_withRow hrows rfl (.inl rfl))
      (by simp [dispatchFailed, isDispatchNotice, Payload.type])

theorem parts_passSent {still : QueuedMessage}
    (h : t.Resumes (.pass threadId (.sending thread still passRef ref mark)) answer)
    (hdrainer : t.world.drainer = t.start.drainer) (hsent : result.isSent = answer.isSent)
    (hdone : result.isDone = answer.isDone) (hskipped : ∀ reason, result = .skipped reason → answer.isSkipped = true)
    (hevents : ∀ events, result = .sent events → NoticesOf thread.id events) :
    Parts t (t.done (t.world.passSent threadId still passRef ref mark result)) := by
  have hfrees (ht : Turn) (hstart : ht.start = t.start) (haction : ht.action = t.action)
      (hdb : ht.world.db = t.world.db) (hnot : result.isDone = false)
      (hstrikes : answer.isSkipped = true ∨ (t.world.drainer.heap passRef).failures + 1 < MAX_DRAIN_FAILURES) :
      (∃ r ∈ ht.world.listQueued threadId, r.id = still.id) → ht.Frees threadId := by
    rintro ⟨r, hr, hid⟩
    obtain ⟨-, i, newId, drainer, haction', htask, -, hworld⟩ := h
    have hqueued : t.start.getQueued still.id = some r := by
      rw [World.listQueued, hdb, hworld] at hr
      exact hid ▸ (mem_listQueued.mp hr).1
    refine .inr ?_
    rw [hstart, haction]
    rw [hdone] at hnot
    rw [hdrainer] at hstrikes
    simp only [World.writesBack, haction', htask]
    rw [if_pos]
    rcases hstrikes with hstrikes | hstrikes <;> simp [hqueued, hnot, hstrikes]
  unfold World.passSent
  dsimp only
  cases result with
  | sent events =>
    exact .tail (.single (.rowDone h rfl hsent rfl rfl (aside_setFailures _ passRef 0)
      (without_without ..) (fun hto : thread.id = threadId => hto ▸ hevents events rfl)
      (fun _ hd => absurd hd List.not_mem_nil) fun d hd => (hevents events rfl d hd).1))
      (.ended (idle_of_none rfl))
  | delivered message =>
    refine .tail (.single (@Part.rowDone _ _ _ _ _ _ _ _ _ _ _ [] _ _ h rfl hsent rfl rfl
      (aside_setFailures _ passRef 0) (without_without ..) (fun _ _ hd => absurd hd List.not_mem_nil) ?_
      fun _ hd => absurd hd List.not_mem_nil)) (.ended (idle_of_none rfl))
    intro draft hdraft
    obtain rfl := List.mem_singleton.mp hdraft
    exact ⟨rfl, fun item hitem => by cases hitem⟩
  | skipped reason =>
    refine .head (.sendBack h rfl hsent (.inr rfl)) ?_
    refine parts_putBack (t := { t with
      world := t.world.sendBack threadId (.drained still.id) ref mark (.skipped reason)
      running := none }) (idle_of_none rfl)
      (hfrees _ rfl rfl rfl rfl (.inl (hskipped reason rfl))) fun w => ?_
    split_ifs
    · exact aside_backOff w threadId
    · exact .refl w
  | failed reason message =>
    refine .head (.sendBack h rfl hsent (.inr rfl)) ?_
    have hfail := failures_finishSend t.world.drainer ref mark passRef false
      (((t.world.getThread threadId).map (·.status)).getD .idle) t.world.now
    split_ifs with hmax
    · exact .head (.aside (aside_setFailures _ passRef 0)) (parts_holdFailed (t := { t with
        world := (t.world.sendBack threadId (.drained still.id) ref mark
          (.failed reason message)).setFailures passRef 0
        running := none }) (idle_of_none rfl))
    · refine .head (.aside (aside_setFailures _ passRef _)) (parts_putBack (t := { t with
        world := (t.world.sendBack threadId (.drained still.id) ref mark
          (.failed reason message)).setFailures passRef _
        running := none }) (idle_of_none rfl) (hfrees _ rfl rfl rfl rfl (.inr ?_)) fun w => aside_backOff w threadId)
      rw [← hfail]
      exact not_le.mp hmax

theorem parts_passOn {stage : PassStage} (h : t.Resumes (.pass threadId stage) answer)
    (hdrainer : t.world.drainer = t.start.drainer) (hon : t.world.passOn threadId newId stage answer = some w) :
    Parts t (t.done w) := by
  unfold World.passOn at hon
  split at hon <;> cases hon
  · exact parts_passRestart (h.idle rfl) ..
  · exact parts_over (h.idle rfl)
  · exact parts_passReady h hdrainer
  · exact parts_over (h.idle rfl)
  · refine parts_passSent h hdrainer (isSent_deliverResult ..) (isDone_deliverResult ..) ?_
      fun _ => noticesOf_deliverResult
    intro reason hskip
    rename_i result
    unfold deliverResult at hskip
    split at hskip <;> try split at hskip
    all_goals first | rfl | cases hskip
  · exact parts_passSent h hdrainer rfl rfl (fun _ hres => by cases hres) fun _ hres => by cases hres

/-! ### Steps -/

theorem parts_goOn (hid : t.fresh = some newId) (h : t.Resumes task answer)
    (hdrainer : t.world.drainer = t.start.drainer) (hon : t.world.goOn newId task answer = some w) :
    Parts t (t.done w) := by
  cases task with
  | schedule threadId =>
    cases answer <;> cases hon
    exact parts_aside (h.idle rfl) (aside_schedule _ _)
  | holdClosed threadId =>
    cases answer <;> cases hon
    exact parts_holdClosed (h.idle rfl) _
  | dispatch ctx thread text attachments stage => exact parts_dispatchOn hid h hon
  | steer threadId rowId press stage => exact parts_steerOn h hdrainer hon
  | pass threadId stage => exact parts_passOn h hdrainer hon
  | interrupt ctx thread stage =>
    by_cases hpressed : ∃ result, stage = .pressed result ∧ answer = .go
    · obtain ⟨result, rfl, rfl⟩ := hpressed
      cases hon
      exact parts_interruptPressed (h.idle rfl) ..
    · have hmap : (t.world.sendInterrupt thread false stage answer).map (fun r =>
          r.1.spawn (.interrupt ctx thread r.2)) = some w := by
        unfold World.goOn at hon
        split at hon <;> simp_all
      obtain ⟨⟨w', stage'⟩, hsend, rfl⟩ := Option.map_eq_some_iff.mp hmap
      obtain ⟨hstage, rfl | ⟨rfl, rfl, ⟨result, rfl⟩, rfl⟩⟩ := sendInterrupt_cases hsend
      · refine parts_spawn (.goesOn h.1 (.interrupt ..) rfl rfl fun id hid => ?_)
        cases stage <;> cases stage' <;> simp_all [Task.mayPress]
      · exact .tail (.single (.press h (.interrupt ..) rfl rfl rfl fun id => rfl))
          (.ended (idle_of_none rfl))
  | permissionMode ctx thread mode ref mark =>
    cases answer <;> cases hon <;> exact parts_permissionModeSet h.1 _
  | model ctx thread ref mark => cases answer <;> cases hon <;> exact parts_modelSent h.1 _

theorem parts_command (h : t.Commands command ctx newId) : Parts t (t.done (t.world.command ctx newId command)) := by
  cases command with
  | messageDispatch => exact parts_dispatch h
  | runInterrupt => exact parts_runInterrupt h
  | queuedReorder => exact parts_reorder h.idle ..
  | queuedEdit => exact parts_edit h.idle ..
  | queuedCancel => exact parts_cancel h.idle ..
  | queueResume => exact parts_resumeQueue h.idle ..
  | permissionModeSet => exact parts_setPermissionMode h
  | modelSet => exact parts_setModel h

variable {a : Action}

theorem step_parts (h : w.step a = some w') : Parts (begin w a) ((begin w a).done w') := by
  unfold World.step at h
  cases a with
  | command c ctx newId =>
    dsimp only at h
    split_ifs at h with hnew
    cases h
    refine .head (.issue hnew rfl) (parts_command (t := { begin w _ with
      world := w.issue newId, fresh := some newId }) ⟨rfl, rfl, rfl, rfl⟩)
  | environment drafts options =>
    dsimp only at h
    split_ifs at h with hqueue
    refine .tail (.single (.outside rfl (fun draft hdraft htype => ?_) rfl h)) (.ended (idle_of_none rfl))
    exact hqueue (List.any_eq_true.mpr ⟨draft, hdraft, by simpa using htype⟩)
  | tick ms =>
    cases h
    exact .tail (.single (.later ms)) (.ended (idle_of_none rfl))
  | resume i answer newId =>
    dsimp only at h
    split_ifs at h with hnew
    split at h
    · cases h
    · rename_i task htask
      refine .head (.take htask rfl) (.head (.issue hnew rfl) ?_)
      exact parts_goOn (t := { begin w _ with
        world := (w.take i).issue newId, running := some task, fresh := some newId }) rfl
        ⟨rfl, i, newId, w.drainer, rfl, htask, .refl _, rfl⟩ rfl h
  | startPass threadId =>
    dsimp only at h
    split_ifs at h with hpass
    cases h
    refine .head (.aside (aside_drainer (Drainer.quiet_beginPass _ threadId))) ?_
    refine parts_passStart (t := { begin w _ with world := _ }) rfl fun task htask => ?_
    simp only [Bool.and_eq_true, Bool.not_eq_true', List.any_eq_false] at hpass
    simpa using hpass.2 task htask
  | retryFires threadId =>
    dsimp only at h
    split_ifs at h
    cases h
    exact .head (.aside (aside_drainer (Drainer.quiet_clearRetry _ threadId)))
      (parts_aside (t := { begin w _ with world := _ }) (idle_of_none rfl) (aside_schedule _ threadId))
  | runWaitFires threadId =>
    dsimp only at h
    split_ifs at h with hdue
    cases h
    exact .head (.waitFired hdue)
      (parts_aside (t := { begin w _ with world := _ }) (idle_of_none rfl) (aside_schedule _ threadId))

theorem step_invariant {C : World → Action → Prop} {P : Turn → Prop}
    (hpart : ∀ t t', P t → C t.start t.action → Part t t' → P t') (hC : C w a) (h : w.step a = some w')
    (hP : P (begin w a)) : P ((begin w a).done w') :=
  parts_invariant hpart hC (step_parts h) hP

end Turn

end Sightr
