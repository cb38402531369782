import Sightr.Dispatch.Kept

/-!
# A message is delivered once

A row has one party that may deliver it: its background steer for as long as that runs, or the pass
that put it to `sending`. An archive takes both the row's state and the drainer's wait away from a send
that is under way; a pass that then takes the row while its steer still runs delivers it beside the
steer. Where no pass does, a row's deliveries exclude each other and one at most comes back done.
-/

namespace Sightr

open Projection

/-! ### Deliveries -/

/-- The sends of the row that were begun and did not come back. -/
def inFlight (rowId : String) : List Obs → List Nat
  | [] => []
  | .handed mark _ path _ _ :: log =>
    if path.row? = some rowId then mark :: inFlight rowId log else inFlight rowId log
  | .reported mark path _ _ :: log =>
    if path.row? = some rowId then (inFlight rowId log).filter (· ≠ mark) else inFlight rowId log
  | _ :: log => inFlight rowId log

/-- How many sends of the row came back `sent` or `delivered`. -/
def deliveries (rowId : String) : List Obs → Nat
  | [] => 0
  | .reported _ path result _ :: log =>
    if path.row? = some rowId ∧ result.isDone = true then deliveries rowId log + 1
    else deliveries rowId log
  | _ :: log => deliveries rowId log

/-- No send of the row is begun while one is under way, and one at most came back done. -/
structure DeliveredOnce (rowId : String) (log : List Obs) : Prop where
  exclusive : (inFlight rowId log).length ≤ 1
  once : deliveries rowId log ≤ 1

def Silent (before : List Obs) : Prop :=
  (∀ obs ∈ before, ∀ mark path result now, obs ≠ .reported mark path result now) ∧
    ∀ obs ∈ before, ∀ mark id path db now, obs ≠ .handed mark id path db now

theorem silent_append {before before' : List Obs} (h : Silent before) (h' : Silent before') :
    Silent (before ++ before') :=
  ⟨fun obs hobs => (List.mem_append.mp hobs).elim (h.1 obs) (h'.1 obs),
    fun obs hobs => (List.mem_append.mp hobs).elim (h.2 obs) (h'.2 obs)⟩

theorem silent_committed (events : List StoredEvent) : Silent (events.map .committed) := by
  constructor <;>
  · intro obs hobs
    obtain ⟨event, -, rfl⟩ := List.mem_map.mp hobs
    simp

theorem Silent.cons {obs : Obs} {before : List Obs} (h : Silent (obs :: before)) : Silent before :=
  ⟨fun o ho => h.1 o (List.mem_cons_of_mem _ ho), fun o ho => h.2 o (List.mem_cons_of_mem _ ho)⟩

theorem deliveries_append {rowId : String} {before log : List Obs} (h : Silent before) :
    deliveries rowId (before ++ log) = deliveries rowId log := by
  induction before with
  | nil => rfl
  | cons obs before ih =>
    have hrest := ih h.cons
    cases obs with
    | reported mark path result now => exact absurd rfl (h.1 _ List.mem_cons_self mark path result now)
    | _ => exact hrest

theorem inFlight_append {rowId : String} {before log : List Obs} (h : Silent before) :
    inFlight rowId (before ++ log) = inFlight rowId log := by
  induction before with
  | nil => rfl
  | cons obs before ih =>
    have hrest := ih h.cons
    cases obs with
    | reported mark path result now => exact absurd rfl (h.1 _ List.mem_cons_self mark path result now)
    | handed mark id path db now => exact absurd rfl (h.2 _ List.mem_cons_self mark id path db now)
    | _ => exact hrest

/-! ### Claims -/

/-- The thread and the row that the task may deliver. -/
def Task.claim : Task → Option (String × String)
  | .steer threadId rowId _ _ => some (threadId, rowId)
  | .pass threadId (.sending _ row ..) => some (threadId, row.id)
  | _ => none

def Task.claims (rowId : String) (task : Task) : Bool := task.claim.any (·.2 = rowId)

variable {task : Task} {threadId rowId : String}

theorem Task.claim_of_sending {path : SendPath} {ref mark : Nat} (h : task.sending = some (threadId, path, ref, mark))
    (hrow : path.row? = some rowId) : task.claim = some (threadId, rowId) := by
  unfold sending at h
  split at h <;> cases h
  · cases hrow
  · exact congrArg (fun id => some (_, id)) (Option.some.inj hrow)
  · exact congrArg (fun id => some (_, id)) (Option.some.inj hrow)

theorem Task.claims_of_claim (h : task.claim = some (threadId, rowId)) : task.claims rowId = true := by
  simp [claims, h]

theorem Task.claim_of_claims (h : task.claims rowId = true) : ∃ threadId, task.claim = some (threadId, rowId) := by
  obtain ⟨⟨threadId, id⟩, hclaim, hid⟩ := (Option.any_eq_true _ _).mp h
  exact ⟨threadId, by simpa using (of_decide_eq_true hid) ▸ hclaim⟩

theorem Task.claims_of_isDeferred (h : task.isDeferred = true) : task.claims rowId = false := by
  cases task <;> first | rfl | cases h

theorem Task.steers_or_pass_of_claim (h : task.claim = some (threadId, rowId)) :
    task.steers rowId = true ∨ task.isPassOf threadId = true := by
  unfold claim at h
  split at h <;> cases h
  · exact .inl (by simp [steers])
  · exact .inr (by simp [isPassOf])

variable {task' : Task}

theorem Task.GoesOn.claim (h : task.GoesOn task') : task'.claim = task.claim := by
  cases h <;> rfl

theorem Task.GoesOn.isPassOf (h : task.GoesOn task') (threadId : String) :
    task'.isPassOf threadId = false ∧ task.isPassOf threadId = false := by
  cases h <;> exact ⟨rfl, rfl⟩

theorem countP_eq_zero_of_cons {p : Task → Bool} {tasks : List Task} (h : (task :: tasks).countP p ≤ 1)
    (hp : p task = true) : tasks.countP p = 0 := by
  rw [List.countP_cons_of_pos hp] at h
  omega

namespace World

/-- A pass takes a row whose background steer is still running. -/
def takesSteered (w : World) : Action → Bool
  | .resume i (.composer (some true)) _ =>
    match w.tasks[i]? with
    | some (.pass threadId (.ready _ row _)) =>
      w.passTakes threadId row.id && w.tasks.any (·.steers row.id)
    | _ => false
  | _ => false

end World

namespace Turn

/-! ### The invariant -/

structure Exclusive (w : World) (running : Option Task) (fresh : Option String) : Prop where
  ids : Ids w running fresh
  owned : w.db.projection.QueueOwned
  /-- A claim is of a row of its thread, that is not done with. -/
  claimed : ∀ task ∈ running.toList ++ w.tasks, ∀ threadId rowId, task.claim = some (threadId, rowId) →
    rowId ∈ w.issued ∧ fresh ≠ some rowId ∧ deliveries rowId w.log = 0 ∧
      ∀ row, w.getQueued rowId = some row → row.threadId = threadId
  unique : ∀ rowId, (running.toList ++ w.tasks).countP (·.claims rowId) ≤ 1
  onePass : ∀ threadId, (running.toList ++ w.tasks).countP (·.isPassOf threadId) ≤ 1
  sendsTo : ∀ task ∈ running.toList ++ w.tasks, SendsTo task
  flying : ∀ rowId, ∀ mark ∈ inFlight rowId w.log, ∃ task ∈ running.toList ++ w.tasks,
    ∃ threadId path ref, task.sending = some (threadId, path, ref, mark) ∧ path.row? = some rowId
  once : ∀ rowId, DeliveredOnce rowId w.log
  /-- A row that is done with is in no queue, and its id is gone. -/
  gone : ∀ rowId, 0 < deliveries rowId w.log → w.getQueued rowId = none ∧ rowId ∈ w.issued ∧ fresh ≠ some rowId

/-- The row may be delivered for the thread: it is not done with, and in no other queue. -/
private structure Deliverable (w : World) (fresh : Option String) (threadId rowId : String) : Prop where
  issued : rowId ∈ w.issued
  used : fresh ≠ some rowId
  open_ : deliveries rowId w.log = 0
  owner : ∀ row, w.getQueued rowId = some row → row.threadId = threadId

variable {w : World} {running : Option Task} {fresh : Option String} {task : Task} {threadId rowId : String}

theorem Exclusive.deliverable (h : Exclusive w running fresh) (htask : task ∈ running.toList ++ w.tasks)
    (hclaim : task.claim = some (threadId, rowId)) :
    Deliverable w fresh threadId rowId := by
  obtain ⟨hissued, hused, hopen, howner⟩ := h.claimed task htask threadId rowId hclaim
  exact ⟨hissued, hused, hopen, howner⟩

variable {row : QueuedMessage}

theorem Exclusive.deliverable_of_queued (h : Exclusive w running fresh) (hrow : w.getQueued rowId = some row)
    (hthread : row.threadId = threadId) :
    Deliverable w fresh threadId rowId := by
  have hqueued := h.ids.queued rowId (by simp [hrow])
  refine ⟨hqueued.1, hqueued.2, ?_, fun row' hrow' => ?_⟩
  · by_contra hdone
    have hnone := (h.gone rowId (Nat.pos_of_ne_zero hdone)).1
    exact absurd (hnone.symm.trans hrow) (by simp)
  · rw [hrow] at hrow'
    exact Option.some.inj hrow' ▸ hthread

variable {t t' : Turn}

private theorem Deliverable.part (h : Deliverable t.world t.fresh threadId rowId)
    (hids : Ids t.world t.running t.fresh) (hpart : Part t t')
    (hopen : deliveries rowId t'.world.log = deliveries rowId t.world.log) :
    Deliverable t'.world t'.fresh threadId rowId := by
  have hissued := issued_of_part hpart
  refine ⟨?_, ?_, hopen.trans h.open_, fun row' hrow' => ?_⟩
  · rcases hissued with ⟨hsame, -⟩ | ⟨newId, -, hworld, -⟩
    · exact hsame ▸ h.issued
    · rw [hworld]
      exact List.mem_cons_of_mem _ h.issued
  · rcases hissued with ⟨-, hfresh | hfresh⟩ | ⟨newId, hnew, -, hfresh⟩
    · exact hfresh ▸ h.used
    · simp [hfresh]
    · rw [hfresh]
      rintro ⟨⟩
      exact hnew h.issued
  · rcases getQueued_of_part hids.ready hpart hrow' with ⟨row, hrow, hthread⟩ | ⟨hfresh, -⟩
    · exact hthread ▸ h.owner row hrow
    · exact absurd hfresh h.used

theorem drained_alone (h : Exclusive t.world t.running t.fresh) (hrun : t.running = some task)
    (hpass : task.isPassOf threadId = true) (hsteer : ∀ other ∈ t.world.tasks, other.steers rowId = false)
    (hrow : t.world.getQueued rowId = some row) (hthread : row.threadId = threadId) :
    t.world.tasks.countP (·.claims rowId) = 0 := by
  rw [List.countP_eq_zero]
  intro other hother hclaims
  obtain ⟨owner, hclaim⟩ := Task.claim_of_claims hclaims
  have howner := (h.deliverable (List.mem_append_right _ hother) hclaim).owner row hrow
  rcases Task.steers_or_pass_of_claim hclaim with hsteers | hother'
  · rw [hsteer other hother] at hsteers
    cases hsteers
  · have hone := h.onePass threadId
    rw [hrun, Option.toList_some, List.singleton_append] at hone
    have hnone := List.countP_eq_zero.mp (countP_eq_zero_of_cons hone hpass) other hother
    exact hnone (by rw [← hthread, howner]; exact hother')

theorem steers_of_drained {i : Nat} {newId : String} {thread : ServerThread} {passRef : Nat}
    (hC : t.start.takesSteered t.action = false) (haction : t.action = .resume i (.composer (some true)) newId)
    (htask : t.start.tasks[i]? = some (.pass threadId (.ready thread row passRef)))
    (htakes : t.start.passTakes threadId row.id = true) (hkeeps : t.KeepsTasks) :
    ∀ other ∈ t.world.tasks, other.steers row.id = false := by
  have hnone : t.start.tasks.any (·.steers row.id) = false := by
    simpa [World.takesSteered, haction, htask, htakes] using hC
  intro other hother
  rcases hkeeps other hother with hold | ⟨id, rfl⟩
  · simpa using List.any_eq_false.mp hnone other hold
  · rfl

/-- A task that comes with a claim goes on with the one that ran, or its row is new, or it is the pass
that takes the row. -/
theorem claim_of_adds (hadds : t.Adds t' task) (hclaim : task.claim = some (threadId, rowId)) :
    (∃ old, t.running = some old ∧ old.claim = some (threadId, rowId)) ∨ (t.fresh = some rowId ∧ t'.fresh = none ∧
        ∀ row, t'.world.getQueued rowId = some row → row.threadId = threadId) ∨
      ∃ thread row i passRef newId, row.id = rowId ∧ t.action = .resume i (.composer (some true)) newId ∧
        t.start.tasks[i]? = some (.pass threadId (.ready thread row passRef)) ∧
        t.running = some (.pass threadId (.ready thread row passRef)) ∧
        t.start.passTakes threadId row.id = true ∧ t.KeepsTasks ∧
        ∃ r, t.world.getQueued rowId = some r ∧ r.threadId = threadId := by
  cases hadds with
  | spawn hspawns =>
    cases hspawns with
    | dispatch | interrupt => cases hclaim
    | @pass _ stage _ _ hsend => cases stage <;> simp_all [Task.claim, Task.sending]
    | goesOn hrun hgoes => exact .inl ⟨_, hrun, hgoes.claim ▸ hclaim⟩
  | send ref mark hsends =>
    cases hsends with
    | start | waited => cases hclaim
    | steer hresumes => exact .inl ⟨_, hresumes.1, hclaim⟩
    | @drained _ thread fresh row still i passRef newId haction htask hrun htakes _ _ _ hkeeps _ hstill hrow =>
      cases hclaim
      exact .inr (.inr ⟨thread, row, i, passRef, newId, hstill.symm, haction, htask, hrun, htakes,
        hkeeps, hstill ▸ hrow⟩)
  | switch hswitch => cases task <;> simp_all [Task.claim, Task.switching]
  | steer hid hused _ hrow =>
    cases hclaim
    exact .inr (.inl ⟨hid, hused, hrow⟩)
  | pressed hrun hgoes => exact .inl ⟨_, hrun, hgoes.claim ▸ hclaim⟩

theorem alone_of_adds (h : Exclusive t.world t.running t.fresh) (hC : t.start.takesSteered t.action = false)
    (hadds : t.Adds t' task) (hclaims : task.claims rowId = true) :
    t.world.tasks.countP (·.claims rowId) = 0 := by
  obtain ⟨threadId, hclaim⟩ := Task.claim_of_claims hclaims
  rcases claim_of_adds hadds hclaim with ⟨old, hrun, hold⟩ | ⟨hfresh, -, -⟩ |
    ⟨thread, row, i, passRef, newId, rfl, haction, htask, hrun, htakes, hkeeps, r, hrow, hthread⟩
  · have hone := h.unique rowId
    rw [hrun, Option.toList_some, List.singleton_append] at hone
    exact countP_eq_zero_of_cons hone (Task.claims_of_claim hold)
  · rw [List.countP_eq_zero]
    intro other hother hclaims'
    obtain ⟨owner, hclaim'⟩ := Task.claim_of_claims hclaims'
    exact (h.deliverable (List.mem_append_right _ hother) hclaim').used hfresh
  · exact drained_alone h hrun (by simp [Task.isPassOf])
      (steers_of_drained hC haction htask htakes hkeeps) hrow hthread

theorem onePass_of_adds (h : Exclusive t.world t.running t.fresh) (hadds : t.Adds t' task)
    (hpass : task.isPassOf threadId = true) : t.world.tasks.countP (·.isPassOf threadId) = 0 := by
  cases hadds with
  | spawn hspawns =>
    cases hspawns with
    | dispatch | interrupt => cases hpass
    | @pass owner stage _ hnone _ =>
      obtain rfl : owner = threadId := of_decide_eq_true hpass
      rw [List.countP_eq_zero]
      exact fun other hother => by simp [hnone other hother]
    | goesOn hrun hgoes => exact absurd hpass (by simp [(hgoes.isPassOf threadId).1])
  | send ref mark hsends =>
    cases hsends with
    | start | waited | steer => cases hpass
    | @drained owner thread fresh row still i passRef newId _ _ hrun =>
      have hone := h.onePass threadId
      rw [hrun, Option.toList_some, List.singleton_append] at hone
      exact countP_eq_zero_of_cons hone hpass
  | switch hswitch => cases task <;> first | cases hpass | cases hswitch
  | steer => cases hpass
  | pressed hrun hgoes => exact absurd hpass (by simp [(hgoes.isPassOf threadId).1])

theorem sendsTo_of_adds (hadds : t.Adds t' task) : SendsTo task := by
  cases hadds with
  | spawn hspawns =>
    cases hspawns with
    | dispatch | interrupt => trivial
    | @pass _ stage _ _ hsend => cases stage <;> trivial
    | @goesOn task task' _ hgoes _ hsend =>
      cases hgoes with
      | interrupt => trivial
      | steer _ _ _ _ stage => cases stage <;> trivial
  | send ref mark hsends =>
    cases hsends with
    | start | waited => trivial
    | steer _ _ _ hfresh => exact Keyed.Table.key_of_find? hfresh
    | drained _ _ _ _ _ _ _ _ hfresh => exact Keyed.Table.key_of_find? hfresh
  | switch hswitch => cases task <;> trivial
  | steer => trivial
  | @pressed task task' _ hgoes hsend =>
    cases hgoes with
    | interrupt => trivial
    | steer _ _ _ _ stage => cases stage <;> trivial

theorem gone_of_part (hids : Ids t.world t.running t.fresh) (hpart : Part t t')
    (h : t.world.getQueued rowId = none ∧ rowId ∈ t.world.issued ∧ t.fresh ≠ some rowId) :
    t'.world.getQueued rowId = none ∧ rowId ∈ t'.world.issued ∧ t'.fresh ≠ some rowId := by
  obtain ⟨hnone, hissued, hused⟩ := h
  refine ⟨?_, ?_, ?_⟩
  · cases hrow : t'.world.getQueued rowId with
    | none => rfl
    | some row' =>
      rcases getQueued_of_part hids.ready hpart hrow with ⟨row, hold, -⟩ | ⟨hfresh, -⟩
      · exact absurd (hnone.symm.trans hold) (by simp)
      · exact absurd hfresh hused
  · rcases issued_of_part hpart with ⟨hsame, -⟩ | ⟨newId, -, hworld, -⟩
    · exact hsame ▸ hissued
    · rw [hworld]
      exact List.mem_cons_of_mem _ hissued
  · rcases issued_of_part hpart with ⟨-, hfresh | hfresh⟩ | ⟨newId, hnew, -, hfresh⟩
    · exact hfresh ▸ hused
    · simp [hfresh]
    · rw [hfresh]
      rintro ⟨⟩
      exact hnew hissued

/-! ### Parts -/

private theorem Exclusive.part (h : Exclusive t.world t.running t.fresh) (hC : t.start.takesSteered t.action = false)
    (hpart : Part t t') (hdone : ∀ rowId, deliveries rowId t'.world.log = deliveries rowId t.world.log)
    (hflying : ∀ rowId, ∀ mark ∈ inFlight rowId t'.world.log, ∃ task ∈ t'.tasks, ∃ threadId path ref,
      task.sending = some (threadId, path, ref, mark) ∧ path.row? = some rowId)
    (hone : ∀ rowId, (inFlight rowId t'.world.log).length ≤ 1) :
    Exclusive t'.world t'.running t'.fresh := by
  have hids := ids_of_part h.ids hpart
  refine ⟨hids, owned_of_part hpart h.owned, fun task htask threadId rowId hclaim => ?_,
    fun rowId => ?_, fun threadId => ?_, ?_, hflying,
    fun rowId => ⟨hone rowId, hdone rowId ▸ (h.once rowId).once⟩, fun rowId hpos => ?_⟩
  · have hdeliverable : Deliverable t'.world t'.fresh threadId rowId := by
      rcases mem_tasks_of_part hpart htask with hold | hcall | hadds
      · exact (h.deliverable hold hclaim).part h.ids hpart (hdone rowId)
      · exact absurd (Task.claims_of_claim hclaim) (by simp [Task.claims_of_isDeferred hcall])
      · rcases claim_of_adds hadds hclaim with ⟨old, hrun, hold⟩ | ⟨hfresh, hused, howner⟩ |
          ⟨thread, row, i, passRef, newId, -, -, -, -, -, -, r, hrow, hthread⟩
        · exact (h.deliverable (mem_tasks_of_running hrun) hold).part h.ids hpart (hdone rowId)
        · refine ⟨?_, by simp [hused], (hdone rowId).trans ?_, howner⟩
          · rcases issued_of_part hpart with ⟨hsame, -⟩ | ⟨newId, -, hworld, -⟩
            · exact hsame ▸ h.ids.fresh rowId hfresh
            · rw [hworld]
              exact List.mem_cons_of_mem _ (h.ids.fresh rowId hfresh)
          · by_contra hpos
            exact (h.gone rowId (Nat.pos_of_ne_zero hpos)).2.2 hfresh
        · exact (h.deliverable_of_queued hrow hthread).part h.ids hpart (hdone rowId)
    exact ⟨hdeliverable.issued, hdeliverable.used, hdeliverable.open_, hdeliverable.owner⟩
  · exact countP_of_part hpart (h.unique rowId) (fun task hcall => Task.claims_of_isDeferred hcall)
      fun task hadds hclaims => alone_of_adds h hC hadds hclaims
  · exact countP_of_part hpart (h.onePass threadId) (fun task hcall => by cases task <;> first | rfl | cases hcall)
      fun task hadds hpass => onePass_of_adds h hadds hpass
  · exact forall_tasks hpart (fun task hcall => by cases task <;> trivial)
      (fun task hadds => sendsTo_of_adds hadds) h.sendsTo
  · rw [hdone] at hpos
    exact gone_of_part h.ids hpart (h.gone rowId hpos)

variable {before : List Obs}

private theorem Exclusive.calm (h : Exclusive t.world t.running t.fresh) (hC : t.start.takesSteered t.action = false)
    (hpart : Part t t') (hlog : t'.world.log = before ++ t.world.log) (hsilent : Silent before)
    (hkept : ∀ task ∈ t.tasks, task.sending ≠ none → task ∈ t'.tasks) :
    Exclusive t'.world t'.running t'.fresh := by
  have hsame (rowId : String) : inFlight rowId t'.world.log = inFlight rowId t.world.log := by
    rw [hlog, inFlight_append hsilent]
  refine h.part hC hpart (fun rowId => by rw [hlog, deliveries_append hsilent])
    (fun rowId mark hmark => ?_) fun rowId => hsame rowId ▸ (h.once rowId).exclusive
  rw [hsame] at hmark
  obtain ⟨task, htask, threadId, path, ref, hsending, hrow⟩ := h.flying rowId mark hmark
  exact ⟨task, hkept task htask (by simp [hsending]), threadId, path, ref, hsending, hrow⟩

variable {path : SendPath}

section

variable {task : Nat → Nat → Task}

theorem idle_of_sends (h : t.Sends threadId path task) : t.Idle := by
  cases h with
  | start hrun => exact idle_of_none hrun
  | waited hresumes hsend =>
    refine hresumes.idle ?_
    rcases hsend with ⟨rfl | rfl, -⟩ | ⟨rows, ready, rfl, -⟩ <;> rfl
  | steer hresumes hsend =>
    refine hresumes.idle ?_
    rcases hsend with ⟨⟨thread, rfl | rfl⟩, -⟩ | ⟨thread, waiter, due, rfl, -⟩ <;> rfl
  | drained _ _ hrun =>
    intro task htask
    rw [hrun] at htask
    cases htask
    rfl

theorem sending_of_sends (h : t.Sends threadId path task) (ref mark : Nat) :
    (task ref mark).sending = some (threadId, path, ref, mark) := by
  cases h with
  | start | waited | steer => rfl
  | drained _ _ _ _ _ _ _ _ _ hstill => rw [Task.sending, hstill]

private theorem Exclusive.send {t : Turn} {threadId : String} {path : SendPath} (h : Exclusive t.world t.running t.fresh)
    (hC : t.start.takesSteered t.action = false) (hsends : t.Sends threadId path task) :
    Exclusive (t.world.send threadId path task) none t.fresh := by
  have hpart : Part t { t with world := t.world.send threadId path task, running := none } := .send hsends
  obtain ⟨ref, mark, hmark⟩ : ∃ ref mark, t.world.drainer.beginSend threadId =
      ((t.world.drainer.beginSend threadId).1, ref, mark) := ⟨_, _, rfl⟩
  have hlog : (t.world.send threadId path task).log =
      .handed mark threadId path t.world.db t.world.now :: t.world.log := by
    unfold World.send
    rw [hmark]
    rfl
  have htasks : (t.world.send threadId path task).tasks = t.world.tasks ++ [task ref mark] := by
    unfold World.send
    rw [hmark]
    rfl
  have hsending := sending_of_sends hsends ref mark
  have hwaits {rowId : String} {m : Nat} (hm : m ∈ inFlight rowId t.world.log) :
      ∃ other ∈ t.world.tasks, ∃ id path' ref', other.sending = some (id, path', ref', m) ∧
        path'.row? = some rowId := by
    obtain ⟨other, hother, id, path', ref', hothers, hrow⟩ := h.flying rowId m hm
    rcases List.mem_append.mp hother with hrun | hother
    · exact absurd hothers (by simp [idle_of_sends hsends other (by simpa using hrun)])
    · exact ⟨other, hother, id, path', ref', hothers, hrow⟩
  have hnone {rowId : String} (hrow : path.row? = some rowId) : inFlight rowId t.world.log = [] := by
    refine List.eq_nil_iff_forall_not_mem.mpr fun m hm => ?_
    obtain ⟨other, hother, id, path', ref', hothers, hrow'⟩ := hwaits hm
    have hadds : t.Adds t (task ref mark) := .send ref mark hsends
    have halone := alone_of_adds h hC hadds (Task.claims_of_claim (Task.claim_of_sending hsending hrow))
    exact List.countP_eq_zero.mp halone other hother (Task.claims_of_claim (Task.claim_of_sending hothers hrow'))
  refine h.part hC hpart (fun rowId => by rw [hlog]; rfl) (fun rowId m hm => ?_) fun rowId => ?_
  · rw [hlog, inFlight] at hm
    have hin : ∀ other ∈ t.world.tasks ++ [task ref mark],
        other ∈ Turn.tasks { t with world := t.world.send threadId path task, running := none } := by
      intro other hother
      simpa [tasks, htasks] using hother
    have hold (hm : m ∈ inFlight rowId t.world.log) :
        ∃ other ∈ Turn.tasks { t with world := t.world.send threadId path task, running := none },
          ∃ id path' ref', other.sending = some (id, path', ref', m) ∧ path'.row? = some rowId := by
      obtain ⟨other, hother, id, path', ref', hothers, hrow⟩ := hwaits hm
      exact ⟨other, hin other (List.mem_append_left _ hother), id, path', ref', hothers, hrow⟩
    split_ifs at hm with hrow
    · rcases List.mem_cons.mp hm with rfl | hm
      · exact ⟨task ref m, hin _ (by simp), threadId, path, ref, hsending, hrow⟩
      · exact hold hm
    · exact hold hm
  · rw [hlog, inFlight]
    split_ifs with hrow
    · simp [hnone hrow]
    · exact (h.once rowId).exclusive

end

variable {mark : Nat} {result : DeliverResult} {now : Int}

theorem flying_back (t' : Turn) {ref : Nat} {calls : List Task} (h : Exclusive t.world t.running t.fresh)
    (hrun : t.running = some task) (hsending : task.sending = some (threadId, path, ref, mark))
    (hlog : t'.world.log = before ++ .reported mark path result now :: t.world.log) (hsilent : Silent before)
    (htasks : t'.world.tasks = t.world.tasks ++ calls) (rowId : String) :
    (∀ m ∈ inFlight rowId t'.world.log, ∃ other ∈ t'.tasks, ∃ id path' ref',
      other.sending = some (id, path', ref', m) ∧ path'.row? = some rowId) ∧
      (inFlight rowId t'.world.log).length ≤ 1 := by
  have hflight : inFlight rowId t'.world.log = if path.row? = some rowId then
      (inFlight rowId t.world.log).filter (· ≠ mark) else inFlight rowId t.world.log := by
    rw [hlog, inFlight_append hsilent, inFlight]
  refine ⟨fun m hm => ?_, ?_⟩
  · have hold : m ∈ inFlight rowId t.world.log ∧ (path.row? = some rowId → m ≠ mark) := by
      rw [hflight] at hm
      split_ifs at hm with hrow
      · exact ⟨(List.mem_filter.mp hm).1, fun _ => by simpa using (List.mem_filter.mp hm).2⟩
      · exact ⟨hm, fun hrow' => absurd hrow' hrow⟩
    obtain ⟨other, hother, id, path', ref', hothers, hrow'⟩ := h.flying rowId m hold.1
    rw [hrun, Option.toList_some, List.singleton_append] at hother
    rcases List.mem_cons.mp hother with rfl | hother
    · obtain ⟨rfl, rfl, rfl, rfl⟩ : id = threadId ∧ path' = path ∧ ref' = ref ∧ m = mark := by
        simpa using hothers.symm.trans hsending
      exact absurd rfl (hold.2 hrow')
    · refine ⟨other, ?_, id, path', ref', hothers, hrow'⟩
      rw [tasks, htasks]
      exact List.mem_append_right _ (List.mem_append_left _ hother)
  · rw [hflight]
    split_ifs
    · exact (List.length_filter_le _ _).trans (h.once rowId).exclusive
    · exact (h.once rowId).exclusive

theorem getQueued_rowDone {w : World} {threadId rowId : String} {rows : List QueuedMessage}
    {before after : List EventDraft} {change : Option QueueChange}
    (howned : w.db.projection.QueueOwned) (hrows : Without w threadId rowId rows)
    (howner : ∀ row, w.getQueued rowId = some row → row.threadId = threadId)
    (hbefore : NoticesOf threadId before) (hafter : NoticesOf threadId after) :
    ((w.append (before ++ queueEvent threadId rows change :: after)).getD w).getQueued rowId = none := by
  have hqueued (r : QueuedMessage) (hr : r ∈ rows) :
      w.db.projection.getQueued r.id = some r ∧ r.threadId = threadId :=
    mem_listQueued.mp ((hrows.1 r).mp hr).1
  cases happ : w.append (before ++ queueEvent threadId rows change :: after) with
  | none =>
    cases hrow : w.getQueued rowId with
    | none => exact hrow
    | some row =>
      obtain ⟨hne, hthread⟩ := howned rowId row hrow
      rw [howner row hrow] at hne hthread
      have hok : ∃ db written, w.db.append
          { drafts := before ++ queueEvent threadId rows change :: after, ts := w.now } = .ok (db, written) := by
        refine Db.append_queueEvent_ok hne hthread hrows.2 (fun r hr row' hrow' => ?_) hbefore hafter
        rw [(hqueued r hr).1] at hrow'
        exact Option.some.inj hrow' ▸ (hqueued r hr).2
      obtain ⟨db, written, hok⟩ := hok
      exact absurd hok (World.append_eq_none.mp happ db written)
  | some w' =>
    have hrewrote := World.rewrote_append (fun d hd => (hbefore d hd).1) (fun d hd => (hafter d hd).1) happ
    have hnot : ∀ r ∈ rows, r.id ≠ rowId := fun r hr => ((hrows.1 r).mp hr).2
    rw [Option.getD_some, World.getQueued, hrewrote.queue.rest rowId hnot]
    cases hrow : w.db.projection.getQueued rowId with
    | none => rfl
    | some row => simp [Option.filter, howner row hrow]

theorem deliveries_reported {log : List Obs} (h : Silent before) (rowId : String) :
    deliveries rowId (before ++ .reported mark path result now :: log) =
      if path.row? = some rowId ∧ result.isDone = true then deliveries rowId log + 1
      else deliveries rowId log := by
  rw [deliveries_append h, deliveries]

private theorem Exclusive.rowDone {t t' : Turn} {task : Task} {threadId rowId : String}
    {path : SendPath} {ref mark : Nat} {result : DeliverResult} {now : Int} {before : List Obs}
    {calls : List Task} (h : Exclusive t.world t.running t.fresh)
    (hC : t.start.takesSteered t.action = false) (hpart : Part t t') (hrun : t.running = some task)
    (hsending : task.sending = some (threadId, path, ref, mark)) (hrow : path.row? = some rowId)
    (hdone : result.isDone = true)
    (hlog : t'.world.log = before ++ .reported mark path result now :: t.world.log)
    (hsilent : Silent before)
    (hrun' : t'.running = none) (htasks : t'.world.tasks = t.world.tasks ++ calls)
    (hcalls : ∀ task ∈ calls, task.isDeferred = true) (hgone : t'.world.getQueued rowId = none) :
    Exclusive t'.world t'.running t'.fresh := by
  have hclaim := Task.claim_of_sending hsending hrow
  have hrow' := h.deliverable (mem_tasks_of_running hrun) hclaim
  have halone : t.world.tasks.countP (·.claims rowId) = 0 := by
    have hone := h.unique rowId
    rw [hrun, Option.toList_some, List.singleton_append] at hone
    exact countP_eq_zero_of_cons hone (Task.claims_of_claim hclaim)
  have hdeliveries (id : String) : deliveries id t'.world.log =
      if id = rowId then 1 else deliveries id t.world.log := by
    rw [hlog, deliveries_reported hsilent, hrow]
    by_cases hid : id = rowId
    · simp [hid, hdone, hrow'.open_]
    · simp [hid, Ne.symm hid]
  have hflying := flying_back t' h hrun hsending hlog hsilent htasks
  refine ⟨ids_of_part h.ids hpart, owned_of_part hpart h.owned, fun other hother id otherId hother' => ?_,
    fun id => countP_of_part hpart (h.unique id) (fun _ hcall => Task.claims_of_isDeferred hcall)
      fun _ hadds hclaims => alone_of_adds h hC hadds hclaims,
    fun id => countP_of_part hpart (h.onePass id)
      (fun task hcall => by cases task <;> first | rfl | cases hcall)
      fun _ hadds hpass => onePass_of_adds h hadds hpass,
    forall_tasks hpart (fun task hcall => by cases task <;> trivial)
      (fun _ hadds => sendsTo_of_adds hadds) h.sendsTo,
    fun id => (hflying id).1, fun id => ⟨(hflying id).2, ?_⟩, fun id hpos => ?_⟩
  · rw [hrun', htasks, Option.toList_none, List.nil_append] at hother
    rcases List.mem_append.mp hother with hold | hcall
    · have hne : otherId ≠ rowId := by
        rintro rfl
        exact List.countP_eq_zero.mp halone other hold (Task.claims_of_claim hother')
      have hkeeps := (h.deliverable (t.world_tasks_subset hold) hother').part h.ids hpart
        (by rw [hdeliveries, if_neg hne])
      exact ⟨hkeeps.issued, hkeeps.used, hkeeps.open_, hkeeps.owner⟩
    · exact absurd (Task.claims_of_claim hother') (by simp [Task.claims_of_isDeferred (hcalls other hcall)])
  · rw [hdeliveries]
    split_ifs
    · exact le_rfl
    · exact (h.once id).once
  · by_cases hid : id = rowId
    · subst hid
      rcases issued_of_part hpart with ⟨hissued, hfresh | hfresh⟩ | ⟨newId, hnew, hworld, hfresh⟩
      · exact ⟨hgone, hissued ▸ hrow'.issued, hfresh ▸ hrow'.used⟩
      · exact ⟨hgone, hissued ▸ hrow'.issued, by simp [hfresh]⟩
      · refine ⟨hgone, hworld ▸ List.mem_cons_of_mem _ hrow'.issued, ?_⟩
        rw [hfresh]
        rintro ⟨⟩
        exact hnew hrow'.issued
    · rw [hdeliveries, if_neg hid] at hpos
      exact gone_of_part h.ids hpart (h.gone id hpos)

variable {w' : World}

theorem silent_aside (h : Aside w w') : ∃ before, w'.log = before ++ w.log ∧ Silent before := by
  obtain ⟨answers, hlog⟩ := h.log
  refine ⟨_, hlog, ?_⟩
  constructor <;>
  · intro obs hobs
    obtain ⟨answer, -, rfl⟩ := List.mem_map.mp hobs
    simp

theorem silent_echoes (h : World.Echoes w w') : ∃ before, w'.log = before ++ w.log ∧ Silent before := by
  obtain ⟨events, hlog, -⟩ := h.log
  exact ⟨_, hlog, silent_committed events⟩

theorem silent_both {m : World} (h : World.Echoes w m) (h' : Aside m w') :
    ∃ before, w'.log = before ++ w.log ∧ Silent before := by
  obtain ⟨before, hlog, hsilent⟩ := silent_echoes h
  obtain ⟨before', hlog', hsilent'⟩ := silent_aside h'
  exact ⟨before' ++ before, by rw [hlog', hlog, List.append_assoc], silent_append hsilent' hsilent⟩

theorem deliveries_of_part (hpart : Part t t') (rowId : String) :
    deliveries rowId t'.world.log = deliveries rowId t.world.log ∨
      ∃ task, t.running = some task ∧ task.claims rowId = true := by
  have hsilent {before : List Obs} (hlog : t'.world.log = before ++ t.world.log) (h : Silent before) :
      deliveries rowId t'.world.log = deliveries rowId t.world.log := by rw [hlog, deliveries_append h]
  cases hpart with
  | aside haside =>
    obtain ⟨before, hlog, h⟩ := silent_aside haside
    exact .inl (hsilent hlog h)
  | later | issue | take | ended | spawn | send | beginSwitch | endSwitch | press | waitFired => exact .inl rfl
  | @sendBack task answer threadId path ref mark result _ _ _ hrow =>
    refine .inl ((deliveries_reported (show Silent [] from ⟨by simp, by simp⟩) rowId).trans (if_neg ?_))
    rintro ⟨hid, hdone⟩
    obtain hnone | hnot := hrow
    · rw [hnone] at hid
      cases hid
    · rw [hnot] at hdone
      cases hdone
  | @rowDone task answer threadId id path ref mark result w rows before after change hresumes hsending _ hrow _ haside
      _ _ hafter hnotices =>
    by_cases hid : id = rowId
    · exact .inr ⟨task, hresumes.1, Task.claims_of_claim (Task.claim_of_sending hsending (hid ▸ hrow))⟩
    · obtain ⟨answers, hlog, h⟩ := silent_aside haside
      have hback : deliveries rowId w.log = deliveries rowId t.world.log := by
        rw [hlog, deliveries_append h]
        exact if_neg fun hboth => hid (Option.some.inj (hrow.symm.trans hboth.1))
      refine .inl ?_
      cases happ : w.append (before ++ queueEvent threadId rows change :: after) with
      | none => exact hback
      | some w' =>
        obtain ⟨events, hlog', h'⟩ := silent_echoes
          (World.rewrote_append hnotices (fun d hd => (hafter d hd).1) happ).toEchoes
        exact (congrArg (deliveries rowId) hlog').trans ((deliveries_append h').trans hback)
  | rewrote hrewrote =>
    obtain ⟨before, hlog, h⟩ := silent_echoes hrewrote.toEchoes
    exact .inl (hsilent hlog h)
  | added _ _ _ _ _ hrewrote haside =>
    obtain ⟨before, hlog, h⟩ := silent_both hrewrote.toEchoes haside
    exact .inl ((congrArg (deliveries rowId) hlog).trans (deliveries_append h))
  | cancelled _ hrewrote haside =>
    obtain ⟨before, hlog, h⟩ := silent_both hrewrote.toEchoes haside
    exact .inl ((congrArg (deliveries rowId) hlog).trans (deliveries_append h))
  | noted hnoted =>
    obtain ⟨before, hlog, h⟩ := silent_echoes hnoted.toEchoes
    exact .inl (hsilent hlog h)
  | outside _ _ _ happ =>
    obtain ⟨events, -, hheard⟩ := World.heard_append happ
    refine .inl (hsilent hheard.log ?_)
    rw [← List.map_reverse]
    exact silent_committed events.reverse

theorem exclusive_of_part (h : Exclusive t.world t.running t.fresh) (hC : t.start.takesSteered t.action = false)
    (hpart : Part t t') :
    Exclusive t'.world t'.running t'.fresh := by
  have hnil : Silent [] := ⟨by simp, by simp⟩
  have hmoved {w : World} (htasks : ∃ ids : List String, w.tasks = t.world.tasks ++ ids.map .schedule) :
      ∀ task ∈ t.tasks, task.sending ≠ none → task ∈ t.running.toList ++ w.tasks := by
    obtain ⟨ids, hids⟩ := htasks
    intro task htask _
    rw [hids, ← List.append_assoc]
    exact List.mem_append_left _ htask
  have hover {w : World} {rest : List Task} (hidle : ∀ task ∈ t.running, task.sending = none)
      (htasks : w.tasks = t.world.tasks ++ rest) :
      ∀ task ∈ t.tasks, task.sending ≠ none → task ∈ w.tasks := by
    intro task htask hsend
    rw [htasks]
    rcases List.mem_append.mp htask with hrun | hwaits
    · exact absurd (hidle task (by simpa using hrun)) hsend
    · exact List.mem_append_left _ hwaits
  cases hpart with
  | @aside w haside =>
    obtain ⟨before, hlog, hsilent⟩ := silent_aside haside
    exact h.calm hC (.aside haside) hlog hsilent fun task htask _ => by
      simpa only [tasks, haside.tasks] using htask
  | later ms => exact h.calm hC (.later ms) rfl hnil fun task htask _ => htask
  | issue hnew hfresh => exact h.calm hC (.issue hnew hfresh) rfl hnil fun task htask _ => htask
  | @take i task htask hrun =>
    refine h.calm hC (.take htask hrun) rfl hnil fun other hother _ => ?_
    obtain ⟨hlt, rfl⟩ := List.getElem?_eq_some_iff.mp htask
    simp only [tasks, hrun, Option.toList_none, List.nil_append] at hother
    exact (List.getElem_cons_eraseIdx_perm hlt).mem_iff.mpr hother
  | ended hidle => exact h.calm hC (.ended hidle) rfl hnil (hover hidle (List.append_nil _).symm)
  | @spawn task hspawns =>
    have hidle : t.Idle := by
      cases hspawns with
      | dispatch hrun | pass hrun | interrupt hrun => exact idle_of_none hrun
      | goesOn hrun _ hsend =>
        intro task htask
        rw [hrun] at htask
        cases htask
        exact hsend
    exact h.calm hC (.spawn hspawns) rfl hnil (hover hidle rfl)
  | send hsends => exact h.send hC hsends
  | @sendBack task answer threadId path ref mark result hresumes hsending hsent hrow =>
    have hpart := Part.sendBack hresumes hsending hsent hrow
    have hlog : (t.world.sendBack threadId path ref mark result).log =
        [] ++ .reported mark path result t.world.now :: t.world.log := rfl
    have hflying := flying_back { t with
      world := t.world.sendBack threadId path ref mark result, running := none } h hresumes.1
      hsending hlog hnil (List.append_nil _).symm
    refine h.part hC hpart (fun rowId => ?_) (fun rowId => (hflying rowId).1)
      fun rowId => (hflying rowId).2
    refine (deliveries_reported hnil rowId).trans (if_neg ?_)
    rintro ⟨hid, hdone⟩
    rcases hrow with hnone | hnot
    · exact absurd (hnone.symm.trans hid) (by simp)
    · exact absurd (hnot.symm.trans hdone) (by simp)
  | @rowDone task answer threadId rowId path ref mark result w rows before after change hresumes hsending
      hsent hrow hdone haside hrows hbefore hafter hnotices =>
    have hpart := @Part.rowDone t task answer threadId rowId path ref mark result w rows before after
      change hresumes hsending hsent hrow hdone haside hrows hbefore hafter hnotices
    obtain ⟨answers, hlog, hsilent⟩ := silent_aside haside
    have hclaim := h.deliverable (mem_tasks_of_running hresumes.1) (Task.claim_of_sending hsending hrow)
    have hgone := @getQueued_rowDone w threadId rowId rows before after change (haside.db ▸ h.owned) hrows
      (fun row hq => hclaim.owner row (haside.getQueued rowId ▸ hq))
      (hbefore (h.sendsTo task (mem_tasks_of_running hresumes.1))) hafter
    cases happ : w.append (before ++ queueEvent threadId rows change :: after) with
    | none =>
      rw [happ] at hgone hpart
      have htasks : w.tasks = t.world.tasks ++ [] := haside.tasks.trans (List.append_nil _).symm
      exact h.rowDone hC hpart hresumes.1 hsending hrow hdone hlog hsilent rfl htasks (by simp) hgone
    | some w' =>
      rw [happ] at hgone hpart
      have hechoes := (World.rewrote_append hnotices (fun d hd => (hafter d hd).1) happ).toEchoes
      obtain ⟨ids, hids⟩ := hechoes.tasks
      obtain ⟨events, hlog', hsilent'⟩ := silent_echoes hechoes
      have hall : w'.log = (events ++ answers) ++
          .reported mark path result t.world.now :: t.world.log := by
        rw [hlog', hlog, List.append_assoc]
        rfl
      have htasks : w'.tasks = t.world.tasks ++ ids.map .schedule := by rw [hids, haside.tasks]; rfl
      refine h.rowDone hC hpart hresumes.1 hsending hrow hdone hall (silent_append hsilent' hsilent) rfl
        htasks (fun task htask => ?_) hgone
      obtain ⟨id, -, rfl⟩ := List.mem_map.mp htask
      rfl
  | beginSwitch hrun hbegins hdrainer htask =>
    exact h.calm hC (.beginSwitch hrun hbegins hdrainer htask) rfl hnil fun other hother hsend =>
      List.mem_append_right _ (hover (idle_of_none hrun) rfl other hother hsend)
  | @endSwitch task threadId ref mark hrun hswitch =>
    refine h.calm hC (.endSwitch hrun hswitch) rfl hnil (hover ?_ (List.append_nil _).symm)
    intro other hother
    rw [hrun] at hother
    cases hother
    cases task <;> first | rfl | cases hswitch
  | rewrote hrewrote hedits =>
    obtain ⟨before, hlog, hsilent⟩ := silent_echoes hrewrote.toEchoes
    exact h.calm hC (.rewrote hrewrote hedits) hlog hsilent (hmoved hrewrote.tasks)
  | @added threadId base rows row w w' extra hidle hid hbase hrows hfrees hrewrote haside hextra =>
    obtain ⟨before, hlog, hsilent⟩ := silent_both hrewrote.toEchoes haside
    obtain ⟨ids, hids⟩ := hrewrote.tasks
    have hall : Obs.accepted threadId row.id :: w'.log =
        ([.accepted threadId row.id] ++ before) ++ t.world.log := by rw [hlog]; rfl
    have htasks : w'.tasks ++ extra = t.world.tasks ++ (ids.map .schedule ++ extra) := by
      rw [haside.tasks, hids, List.append_assoc]
    exact h.calm hC (.added hidle hid hbase hrows hfrees hrewrote haside hextra) hall
      (silent_append ⟨by simp, by simp⟩ hsilent)
      (@hover { w' with tasks := w'.tasks ++ extra } _ hidle htasks)
  | @cancelled threadId rowId rows w w' hrows hrewrote haside =>
    obtain ⟨before, hlog, hsilent⟩ := silent_both hrewrote.toEchoes haside
    have hall : Obs.cancelled rowId :: w'.log = ([.cancelled rowId] ++ before) ++ t.world.log := by
      rw [hlog]
      rfl
    obtain ⟨ids, hids⟩ := hrewrote.tasks
    exact h.calm hC (.cancelled hrows hrewrote haside) hall
      (silent_append ⟨by simp, by simp⟩ hsilent) (hmoved ⟨ids, haside.tasks.trans hids⟩)
  | noted hnoted =>
    obtain ⟨before, hlog, hsilent⟩ := silent_echoes hnoted.toEchoes
    exact h.calm hC (.noted hnoted) hlog hsilent (hmoved hnoted.tasks)
  | @press task task' threadId hresumes hgoes hpress hsend hsend' hpress' =>
    have hlog : Obs.pressed threadId t.world.now :: t.world.log =
        [.pressed threadId t.world.now] ++ t.world.log := rfl
    exact h.calm hC (.press hresumes hgoes hpress hsend hsend' hpress') hlog ⟨by simp, by simp⟩
      (hover (hresumes.idle hsend) rfl)
  | @outside drafts options w haction hqueue hstart happ =>
    obtain ⟨events, -, hheard⟩ := World.heard_append happ
    obtain ⟨calls, hcalls, -⟩ := hheard.tasks
    refine h.calm hC (.outside haction hqueue hstart happ) hheard.log ?_ fun task htask _ => ?_
    · rw [← List.map_reverse]
      exact silent_committed events.reverse
    · simp only [tasks, hcalls]
      rw [← List.append_assoc]
      exact List.mem_append_left _ htask
  | waitFired hdue => exact h.calm hC (.waitFired hdue) rfl hnil fun task htask _ => htask

theorem exclusive_of_booted {db : Db} (h : World.Booted db now w) (howned : db.projection.QueueOwned) :
    Exclusive w none none := by
  have htask (task : Task) (htask : task ∈ w.tasks) : task.isDeferred = true := by
    obtain ⟨id, rfl⟩ := h.tasks task htask
    rfl
  have hsilent : Silent w.log := by
    constructor <;>
    · intro obs hobs
      obtain ⟨event, rfl, -⟩ := h.log obs hobs
      simp
  have hdeliveries (rowId : String) : deliveries rowId w.log = 0 := by
    have hnone := @deliveries_append rowId _ [] hsilent
    rwa [List.append_nil] at hnone
  have hflight (rowId : String) : inFlight rowId w.log = [] := by
    have hnone := @inFlight_append rowId _ [] hsilent
    rwa [List.append_nil] at hnone
  refine ⟨ids_of_booted h, h.owned howned, fun task ht threadId rowId hclaim => ?_, fun rowId => ?_,
    fun threadId => ?_, fun task ht => ?_, fun rowId mark hmark => ?_, fun rowId => ⟨?_, ?_⟩,
    fun rowId hpos => ?_⟩
  · exact absurd (Task.claims_of_claim hclaim) (by simp [Task.claims_of_isDeferred (htask task (by simpa using ht))])
  · refine (List.countP_eq_zero.mpr fun task ht => ?_).le.trans (Nat.zero_le 1)
    simp [Task.claims_of_isDeferred (htask task (by simpa using ht))]
  · refine (List.countP_eq_zero.mpr fun task ht => ?_).le.trans (Nat.zero_le 1)
    have hdeferred := htask task (by simpa using ht)
    cases task <;> simp_all [Task.isDeferred, Task.isPassOf]
  · have hdeferred := htask task (by simpa using ht)
    cases task <;> trivial
  · simp [hflight] at hmark
  · simp [hflight]
  · simp [hdeliveries]
  · simp [hdeliveries] at hpos

end Turn

namespace World

/-- In every run from a bridge start in which no pass takes a row whose background steer is still
running, no row's deliveries overlap, and one of them at most comes back `sent` or `delivered`. -/
theorem delivers_once {w : World} (h : Reaches (fun w a => w.takesSteered a = false) w)
    (rowId : String) : DeliveredOnce rowId w.log := by
  obtain ⟨batches, db, written, now, happ, hrun⟩ := h
  exact (Turn.run_invariant (fun _ _ ht _ hC hpart => Turn.exclusive_of_part ht hC hpart) hrun
    (Turn.exclusive_of_booted (booted_boot db now) (Db.queueOwned_of_appends happ))).once rowId

/-- A steer whose agent waits for its background agents is sent, and comes back. -/
def steered : List Action :=
  [.command (.messageDispatch "t1" "turn left" [] .steer) (testContext "c1") "n1",
    .resume 0 (.screen false) "s1", .resume 1 (.screen true) "n2",
    .resume 1 (.send (.done .sent)) "n3"]

/-- The same steer is under way as its thread is closed and revived, and the operator resumes the
queue. -/
def steeredAcrossClose : List Action :=
  [.command (.messageDispatch "t1" "turn left" [] .steer) (testContext "c1") "n1",
    .resume 0 (.screen false) "s1", .resume 1 (.screen true) "n2",
    .environment [{ threadId := some "t1", payload := .threadArchived .paneClosed 2000 }] {},
    .resume 2 .go "n3",
    .environment [{ threadId := some "t1", payload := .threadShelfChanged .active none none 3000 }] {},
    statusBatch .idle 3000, .command (.queueResume "t1") (testContext "c2") "n4",
    .startPass "t1", .resume 4 (.composer (some true)) "n5"]

/-- The steer's row is delivered, once. -/
theorem delivers_once_steered : ∃ w, Reaches (fun w a => w.takesSteered a = false) w ∧
    deliveries "s1" w.log = 1 ∧ DeliveredOnce "s1" w.log := by
  obtain ⟨w, hreaches, hdone⟩ := reaches_of_exec .working steered
    (C := fun w a => w.takesSteered a = false) (p := fun w => deliveries "s1" w.log = 1)
    (by decide +kernel)
  exact ⟨w, hreaches, of_decide_eq_true hdone, delivers_once hreaches "s1"⟩

/-- The pass of the revived thread delivers the row beside its steer. -/
theorem delivers_twice_across_close : ¬ ∀ w, Reaches Always w → ∀ rowId, DeliveredOnce rowId w.log := by
  intro h
  obtain ⟨w, hreaches, htwice⟩ := reaches_of_exec .working steeredAcrossClose (C := Always)
    (p := fun w => (inFlight "s1" w.log).length = 2) (by decide +kernel)
  have hone := (h w hreaches "s1").exclusive
  rw [of_decide_eq_true htwice] at hone
  omega

end World

end Sightr
