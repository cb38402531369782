import Mathlib.Data.List.Perm.Basic
import Sightr.Dispatch.Boot

/-!
# Tasks, shelves and owners in a turn

The task that runs and those that wait, together, and how each part of a turn changes them: deferred
calls apart, at most one task comes, and it comes when the one that ran is over. Shelves and statuses
change only in the batches of the rest of the bridge, and every queue keeps its thread.
-/

namespace Sightr

open Projection

def World.standing (w : World) (id : String) : Option (Shelf × ThreadStatus) :=
  (w.getThread id).map fun thread => (thread.shelf, thread.status)

namespace Turn

/-! ### The tasks -/

variable {w w' : World}

theorem Aside.getThread (h : Aside w w') (id : String) : w'.getThread id = w.getThread id := by
  rw [World.getThread, h.db]
  rfl

theorem Aside.getQueued (h : Aside w w') (id : String) : w'.getQueued id = w.getQueued id := by
  rw [World.getQueued, h.db]
  rfl

def tasks (t : Turn) : List Task := t.running.toList ++ t.world.tasks

theorem world_tasks_subset (t : Turn) : t.world.tasks ⊆ t.tasks := List.subset_append_right _ _

variable {t : Turn} {task : Task}

theorem mem_tasks_of_running (h : t.running = some task) : task ∈ t.tasks := by
  simp [tasks, h]

inductive Adds (t t' : Turn) : Task → Prop
  | spawn {task : Task} (h : t.Spawns task) : Adds t t' task
  | send {threadId : String} {path : SendPath} {task : Nat → Nat → Task} (ref mark : Nat)
      (h : t.Sends threadId path task) : Adds t t' (task ref mark)
  | switch {task : Task} {threadId : String} {ref mark : Nat}
      (h : task.switching = some (threadId, ref, mark)) : Adds t t' task
  | steer {threadId rowId : String} {thread : ServerThread} {press : Bool}
      (hid : t.fresh = some rowId) (hused : t'.fresh = none) (hthread : thread.id = threadId)
      (hrow : ∀ row, t'.world.getQueued rowId = some row → row.threadId = threadId)
      (hpress : press = true → t.world.pressedRecently threadId = false) :
      Adds t t' (.steer threadId rowId press (.background thread))
  | pressed {task task' : Task} (hrun : t.running = some task) (hgoes : task.GoesOn task')
      (hsend : task'.sending = none) (hpress : ∀ id, task'.mayPress id = false) : Adds t t' task'

/-- The tasks of `t'` are `kept`, deferred calls and at most one that came. -/
structure Moves (t : Turn) (kept : List Task) (t' : Turn) : Prop where
  moves : ∃ calls come : List Task, t'.tasks.Perm (kept ++ (calls ++ come)) ∧
    (∀ task ∈ calls, task.isDeferred = true) ∧
    (come = [] ∨ kept = t.world.tasks ∧ ∃ task, come = [task] ∧ t.Adds t' task)

variable {t' : Turn}

theorem moves_same (h : t'.tasks = t.tasks) : Moves t t.tasks t' := ⟨[], [], by simp [h], by simp, .inl rfl⟩

theorem moves_calls {calls : List Task} (hcalls : ∀ task ∈ calls, task.isDeferred = true)
    (hrun : t'.running = t.running) (h : t'.world.tasks = t.world.tasks ++ calls) : Moves t t.tasks t' :=
  ⟨calls, [], by simp [tasks, hrun, h], hcalls, .inl rfl⟩

theorem moves_drop (calls : List Task) (hcalls : ∀ task ∈ calls, task.isDeferred = true)
    (hrun : t'.running = none) (h : t'.world.tasks = t.world.tasks ++ calls) : Moves t t.world.tasks t' :=
  ⟨calls, [], by simp [tasks, hrun, h], hcalls, .inl rfl⟩

theorem moves_come (hadds : t.Adds t' task) (hrun : t'.running = none)
    (h : t'.world.tasks = t.world.tasks ++ [task]) :
    Moves t t.world.tasks t' :=
  ⟨[], [task], by simp [tasks, hrun, h], by simp, .inr ⟨rfl, task, rfl, hadds⟩⟩

theorem deferred_schedules (ids : List String) : ∀ task ∈ ids.map Task.schedule, task.isDeferred = true := by
  intro task htask
  obtain ⟨id, -, rfl⟩ := List.mem_map.mp htask
  rfl

/-- A part keeps the tasks, or ends the one that runs; at most one task comes, in its place. -/
theorem tasks_of_part (h : Part t t') : Moves t t.tasks t' ∨ Moves t t.world.tasks t' := by
  cases h with
  | aside h =>
    refine .inl (moves_same ?_)
    simp only [tasks, h.tasks]
  | later | waitFired | issue => exact .inl (moves_same rfl)
  | take htask hrun =>
    refine .inl ⟨[], [], ?_, by simp, .inl rfl⟩
    obtain ⟨hlt, rfl⟩ := List.getElem?_eq_some_iff.mp htask
    simpa [tasks, hrun, World.take] using List.getElem_cons_eraseIdx_perm hlt
  | ended => exact .inr (moves_drop [] (by simp) rfl (by simp))
  | spawn h => exact .inr (moves_come (.spawn h) rfl rfl)
  | send h => exact .inr (moves_come (.send _ _ h) rfl rfl)
  | sendBack => exact .inr (moves_drop [] (by simp) rfl (by simp [World.sendBack, World.observe]))
  | @rowDone task answer threadId rowId path ref mark result w rows before after change _ _ _ _ _ haside
      hrows _ hafter hnotices =>
    have htasks : w.tasks = t.world.tasks := haside.tasks
    cases happ : w.append (before ++ queueEvent threadId rows change :: after) with
    | none => exact .inr (moves_drop [] (by simp) rfl (by simp [htasks]))
    | some w' =>
      have hrewrote := World.rewrote_append hnotices (fun d hd => (hafter d hd).1) happ
      obtain ⟨ids, hids⟩ := hrewrote.tasks
      refine .inr (moves_drop _ (deferred_schedules ids) rfl ?_)
      simp [hids, htasks]
  | beginSwitch hrun _ _ htask =>
    exact .inr (moves_come (.switch (htask _ _)) hrun rfl)
  | endSwitch => exact .inr (moves_drop [] (by simp) rfl (by simp [World.endSwitch]))
  | rewrote h =>
    obtain ⟨ids, hids⟩ := h.tasks
    exact .inl (moves_calls (deferred_schedules ids) rfl hids)
  | @added threadId base rows row w w' extra _ hid _ hrows _ h haside hextra =>
    obtain ⟨ids, hids⟩ := h.tasks
    have hrow : ∀ r, w'.getQueued row.id = some r → r.threadId = threadId := by
      intro r hr
      obtain ⟨position, hkept⟩ := h.queue.kept row ((hrows row).mpr (.inl rfl))
      rw [haside.getQueued, World.getQueued, hkept] at hr
      exact Option.some.inj hr ▸ rfl
    refine .inr ⟨ids.map .schedule, extra, ?_, deferred_schedules ids, ?_⟩
    · simp [tasks, haside.tasks, hids, List.append_assoc]
    · rcases hextra with hnil | ⟨press, thread, rfl, hthread, hpress⟩
      · exact .inl hnil
      · exact .inr ⟨rfl, _, rfl, .steer hid rfl hthread hrow hpress⟩
  | cancelled _ h haside =>
    obtain ⟨ids, hids⟩ := h.tasks
    exact .inl (moves_calls (deferred_schedules ids) rfl (haside.tasks.trans hids))
  | noted h =>
    obtain ⟨ids, hids⟩ := h.tasks
    exact .inl (moves_calls (deferred_schedules ids) rfl hids)
  | press hresumes hgoes _ _ hsend' hpress' =>
    exact .inr (moves_come (.pressed hresumes.1 hgoes hsend' hpress') rfl rfl)
  | outside _ _ _ h =>
    obtain ⟨events, -, hheard⟩ := World.heard_append h
    obtain ⟨calls, htasks, hcalls⟩ := hheard.tasks
    exact .inl (moves_calls hcalls rfl htasks)

theorem Moves.mem {kept : List Task} (h : Moves t kept t') (htask : task ∈ t'.tasks) :
    task ∈ kept ∨ task.isDeferred = true ∨ t.Adds t' task := by
  obtain ⟨calls, come, hperm, hcalls, hcome⟩ := h.moves
  rcases List.mem_append.mp (hperm.mem_iff.mp htask) with hkept | hnew
  · exact .inl hkept
  · rcases List.mem_append.mp hnew with hcall | hnew
    · exact .inr (.inl (hcalls task hcall))
    · rcases hcome with rfl | ⟨-, task', rfl, hadds⟩
      · exact absurd hnew List.not_mem_nil
      · obtain rfl := List.mem_singleton.mp hnew
        exact .inr (.inr hadds)

theorem mem_tasks_of_part (h : Part t t') (htask : task ∈ t'.tasks) :
    task ∈ t.tasks ∨ task.isDeferred = true ∨ t.Adds t' task := by
  rcases tasks_of_part h with hmoves | hmoves
  · exact hmoves.mem htask
  · exact (hmoves.mem htask).imp_left fun hkept => t.world_tasks_subset hkept

/-- What deferred calls and every task that comes have, every task keeps having. -/
theorem forall_tasks {P : Task → Prop} (h : Part t t') (hcall : ∀ task, task.isDeferred = true → P task)
    (hadds : ∀ task, t.Adds t' task → P task) (ht : ∀ task ∈ t.tasks, P task) : ∀ task ∈ t'.tasks, P task := by
  intro task htask
  rcases mem_tasks_of_part h htask with hold | hdeferred | hnew
  · exact ht task hold
  · exact hcall task hdeferred
  · exact hadds task hnew

/-- A property that one task at most has stays so, where a task that comes with it finds none. -/
theorem countP_of_part {p : Task → Bool} (h : Part t t') (hone : t.tasks.countP p ≤ 1)
    (hcall : ∀ task, task.isDeferred = true → p task = false)
    (hadds : ∀ task, t.Adds t' task → p task = true → t.world.tasks.countP p = 0) :
    t'.tasks.countP p ≤ 1 := by
  have hworld : t.world.tasks.countP p ≤ 1 := ((List.sublist_append_right _ _).countP_le).trans hone
  have hmoves {kept : List Task} (hkept : kept.countP p ≤ 1) (hm : Moves t kept t') : t'.tasks.countP p ≤ 1 := by
    obtain ⟨calls, come, hperm, hcalls, hcome⟩ := hm.moves
    have hnone : calls.countP p = 0 :=
      List.countP_eq_zero.mpr fun task htask => by simp [hcall task (hcalls task htask)]
    rw [hperm.countP_eq, List.countP_append, List.countP_append, hnone]
    rcases hcome with rfl | ⟨rfl, task, rfl, hnew⟩
    · simpa using hkept
    · by_cases hp : p task = true
      · simp [hadds task hnew hp, hp]
      · simpa [hp] using hkept
  rcases tasks_of_part h with hm | hm
  · exact hmoves hone hm
  · exact hmoves hworld hm

/-! ### What only the rest of the bridge changes -/

theorem standing_of_part (h : Part t t') (id : String) :
    t'.world.standing id = t.world.standing id ∨ t.world = t.start ∧ t'.running = t.running ∧
      ∃ drafts options, t.action = .environment drafts options ∧ t.world.append drafts options = some t'.world := by
  have hof {w w' : World} (h : w'.getThread id = w.getThread id) : w'.standing id = w.standing id := by
    rw [World.standing, World.standing, h]
  have hrewrote {w w' : World} {threadId : String} {rows : List QueuedMessage}
      (h : World.Rewrote w threadId rows w') : w'.getThread id = w.getThread id := by
    rw [World.getThread, Projection.getThread, h.threads]
    rfl
  cases h with
  | aside h => exact .inl (hof (h.getThread id))
  | later | issue | take | ended | spawn | send | sendBack | beginSwitch | endSwitch | press
  | waitFired => exact .inl rfl
  | @rowDone task answer threadId rowId path ref mark result w rows before after change _ _ _ _ _ haside
      _ _ hafter hnotices =>
    refine .inl (hof ?_)
    have hw : w.getThread id = t.world.getThread id := haside.getThread id
    cases happ : w.append (before ++ queueEvent threadId rows change :: after) with
    | none => exact hw
    | some w' => exact (hrewrote (World.rewrote_append hnotices (fun d hd => (hafter d hd).1) happ)).trans hw
  | rewrote h => exact .inl (hof (hrewrote h))
  | added _ _ _ _ _ h haside => exact .inl (hof ((haside.getThread id).trans (hrewrote h)))
  | cancelled _ h haside => exact .inl (hof ((haside.getThread id).trans (hrewrote h)))
  | noted h => exact .inl (h.threads id)
  | outside haction _ hstart h => exact .inr ⟨hstart, rfl, _, _, haction, h⟩

theorem owned_of_part (h : Part t t') (howned : t.world.db.projection.QueueOwned) :
    t'.world.db.projection.QueueOwned := by
  cases h with
  | aside h => exact h.db ▸ howned
  | later | issue | take | ended | spawn | send | sendBack | beginSwitch | endSwitch | press
  | waitFired => exact howned
  | @rowDone task answer threadId rowId path ref mark result w rows before after change _ _ _ _ _ haside
      _ _ hafter hnotices =>
    have hw : w.db.projection.QueueOwned := haside.db ▸ howned
    cases happ : w.append (before ++ queueEvent threadId rows change :: after) with
    | none => exact hw
    | some w' =>
      exact (World.rewrote_append hnotices (fun d hd => (hafter d hd).1) happ).owned hw
  | rewrote h => exact h.owned howned
  | added _ _ _ _ _ h haside =>
    show Projection.QueueOwned (World.db _).projection
    exact haside.db ▸ h.owned howned
  | cancelled _ h haside =>
    show Projection.QueueOwned (World.db _).projection
    exact haside.db ▸ h.owned howned
  | noted h => exact h.owned howned
  | outside _ _ _ h =>
    obtain ⟨events, happ, -⟩ := World.heard_append h
    exact Db.append_queueOwned howned happ

end Turn

theorem World.Reaches.owned {C : World → Action → Prop} {w : World} (h : Reaches C w) :
    w.db.projection.QueueOwned := by
  obtain ⟨batches, db, written, now, happ, hrun⟩ := h
  exact Turn.run_invariant (Q := fun w _ _ => w.db.projection.QueueOwned)
    (fun _ _ ht _ _ hpart => Turn.owned_of_part hpart ht) hrun
    ((World.booted_boot db now).owned (Db.queueOwned_of_appends happ))

end Sightr
