import Sightr.Dispatch.Effects

/-!
# The operator's order

A queue is written as a whole, sorted by the positions its rows carry. A write that takes its rows from the
queue as it stands keeps their order, and a new row goes behind them. A send that comes back writes its row
from the copy that was sent, with the position it had then: where the queue has moved meanwhile, the sort
takes the row to another place.
-/

namespace Sightr

open Projection

/-! ### Numbered queues -/

def Numbered (rows : List QueuedMessage) : Prop := ∀ i (h : i < rows.length), (rows.get ⟨i, h⟩).position = (i : Int)

theorem numbered_nil : Numbered [] := fun _ h => absurd h (Nat.not_lt_zero _)

theorem numbered_mapIdx (rows : List QueuedMessage) :
    Numbered (rows.mapIdx fun position row => { row with position := (position : Int) }) := by
  intro i h
  simp

variable {rows : List QueuedMessage}

theorem Numbered.pairwise (h : Numbered rows) : rows.Pairwise (·.position ≤ ·.position) := by
  refine List.pairwise_iff_getElem.mpr fun i j hi hj hij => ?_
  have hpi := h i hi
  have hpj := h j hj
  simp only [List.get_eq_getElem] at hpi hpj
  rw [hpi, hpj]
  omega

theorem Numbered.le_length (h : Numbered rows) {r : QueuedMessage} (hr : r ∈ rows) : r.position ≤ rows.length := by
  obtain ⟨i, hi, rfl⟩ := List.getElem_of_mem hr
  have hp := h i hi
  simp only [List.get_eq_getElem] at hp
  rw [hp]
  omega

/-- The queue as the thread's list gives it after `rows` were written. -/
def asStored (threadId : String) (rows : List QueuedMessage) : List QueuedMessage :=
  (normalizeQueue rows).map fun m => { m with threadId }

theorem numbered_asStored (threadId : String) (rows : List QueuedMessage) : Numbered (asStored threadId rows) := by
  intro i h
  simp [asStored, normalizeQueue]

theorem ids_asStored {threadId : String} (h : rows.Pairwise (·.position ≤ ·.position)) :
    (asStored threadId rows).map (·.id) = rows.map (·.id) := by
  have hsort : rows.insertionSort (·.position ≤ ·.position) = rows := h.insertionSort_eq
  rw [asStored, normalizeQueue, hsort]
  refine List.ext_getElem (by simp) fun i _ _ => ?_
  simp

/-! ### Orders -/

/-- The rows of the order that are left stand in that order; rows that are none of them come after. -/
def InOrder (ids : List String) (rows : List QueuedMessage) : Prop :=
  ∃ kept later, rows.map (·.id) = kept ++ later ∧ kept.Sublist ids ∧ ∀ id ∈ later, id ∉ ids

theorem inOrder_nil (ids : List String) : InOrder ids [] := ⟨[], [], rfl, List.nil_sublist _, by simp⟩

theorem InOrder.sublist {ids : List String} {rows' : List QueuedMessage} (h : InOrder ids rows)
    (hsub : (rows'.map (·.id)).Sublist (rows.map (·.id))) : InOrder ids rows' := by
  obtain ⟨kept, later, heq, hkept, hlater⟩ := h
  rw [heq] at hsub
  obtain ⟨kept', later', heq', hsub', hsub''⟩ := List.sublist_append_iff.mp hsub
  exact ⟨kept', later', heq', hsub'.trans hkept, fun id hid => hlater id (hsub''.subset hid)⟩

theorem InOrder.added {ids : List String} {rows rows' : List QueuedMessage} {id : String} (h : InOrder ids rows)
    (heq : rows'.map (·.id) = rows.map (·.id) ++ [id]) (hnew : id ∉ ids) : InOrder ids rows' := by
  obtain ⟨kept, later, hrows, hkept, hlater⟩ := h
  refine ⟨kept, later ++ [id], by rw [heq, hrows, List.append_assoc], hkept, fun other hother => ?_⟩
  rcases List.mem_append.mp hother with hother | hother
  · exact hlater other hother
  · exact List.mem_singleton.mp hother ▸ hnew

namespace World

/-! ### Writes -/

inductive Wrote (newId : Option String) (moves : String → Prop) : World → World → Prop
  | same {w w' : World} (h : w'.db = w.db) : Wrote newId moves w w'
  | commits {w w' : World} {drafts : List EventDraft} {options : AppendOptions}
      (hqueue : ∀ draft ∈ drafts, draft.payload.type ≠ .queueUpdated) (h : w.append drafts options = some w') :
    Wrote newId moves w w'
  | writes {w w' : World} {before after : List EventDraft} {options : AppendOptions} {threadId : String}
      {rows : List QueuedMessage} {change : Option QueueChange} {reason : Option String}
      (hbefore : ∀ draft ∈ before, isDispatchNotice draft = true)
      (hafter : ∀ draft ∈ after, isDispatchNotice draft = true) (horders : Orders newId moves w threadId rows)
      (h : w.append (before ++ queueEvent threadId rows change reason :: after) options = some w') :
    Wrote newId moves w w'

abbrev Wrotes (newId : Option String) (moves : String → Prop) : World → World → Prop :=
  Relation.ReflTransGen (Wrote newId moves)

variable {who newId : Option String} {moves : String → Prop} {w w' : World} {threadId : String} {ids : List String}

theorem wrotes_of_effects (h : Effects who newId moves w w') : Wrotes newId moves w w' := by
  refine Relation.ReflTransGen.mono (fun w w' heffect => ?_) _ _ h
  cases heffect with
  | beside h => exact .same h.db
  | commits _ hqueue h => exact .commits hqueue h
  | writes _ hbefore hafter horders h => exact .writes hbefore hafter horders h

variable {options : AppendOptions}

theorem listQueued_commits {drafts : List EventDraft} (hqueue : ∀ draft ∈ drafts, draft.payload.type ≠ .queueUpdated)
    (h : w.append drafts options = some w') (threadId : String) :
    w'.listQueued threadId = w.listQueued threadId ∨ w'.listQueued threadId = [] := by
  obtain ⟨events, happ, -⟩ := heard_append h
  exact Db.append_listQueued hqueue happ threadId

variable {before after : List EventDraft} {rows : List QueuedMessage} {change : Option QueueChange}
  {reason : Option String}

theorem listQueued_writes {owner : String} (hbefore : AllNotices before) (hafter : AllNotices after)
    (h : w.append (before ++ queueEvent owner rows change reason :: after) options = some w') (threadId : String) :
    w'.listQueued threadId = if owner = threadId then asStored threadId rows else w.listQueued threadId := by
  obtain ⟨events, happ, -⟩ := heard_append h
  refine (Db.append_queue_listQueued rfl hbefore hafter happ threadId).trans ?_
  congr 1
  exact (numbered_asStored threadId rows).pairwise.insertionSort_eq

theorem numbered_wrote (h : Wrote newId moves w w') (hnumbered : Numbered (w.listQueued threadId)) :
    Numbered (w'.listQueued threadId) := by
  cases h with
  | same h =>
    rw [listQueued, h]
    exact hnumbered
  | commits hqueue h =>
    rcases listQueued_commits hqueue h threadId with heq | hnone
    · rwa [heq]
    · rw [hnone]
      exact numbered_nil
  | writes hbefore hafter _ h =>
    rw [listQueued_writes hbefore hafter h]
    split_ifs
    · exact numbered_asStored _ _
    · exact hnumbered

theorem inOrder_wrote (h : Wrote newId moves w w') (hmoves : ¬ moves threadId)
    (hnew : ∀ id, newId = some id → id ∉ ids) (hnumbered : Numbered (w.listQueued threadId))
    (horder : InOrder ids (w.listQueued threadId)) : InOrder ids (w'.listQueued threadId) := by
  cases h with
  | same h =>
    rw [listQueued, h]
    exact horder
  | commits hqueue h =>
    rcases listQueued_commits hqueue h threadId with heq | hnone
    · rwa [heq]
    · rw [hnone]
      exact inOrder_nil ids
  | @writes before after _ owner rows _ _ hbefore hafter horders h =>
    rw [listQueued_writes hbefore hafter h]
    split_ifs with howner
    · subst howner
      rcases horders with ⟨hsub, hsorted⟩ | ⟨base, row, rfl, hbase, hid, hposition⟩ | hmove
      · refine horder.sublist ?_
        rw [ids_asStored hsorted]
        exact hsub
      · have hbaseOrder : InOrder ids base ∧ Numbered base := by
          rcases hbase with rfl | rfl
          · exact ⟨horder, hnumbered⟩
          · exact ⟨inOrder_nil ids, numbered_nil⟩
        have hsorted : (base ++ [row]).Pairwise (·.position ≤ ·.position) := by
          refine List.pairwise_append.mpr ⟨hbaseOrder.2.pairwise, List.pairwise_singleton .., fun a ha b hb => ?_⟩
          obtain rfl := List.mem_singleton.mp hb
          rw [hposition]
          exact hbaseOrder.2.le_length ha
        refine hbaseOrder.1.added ?_ (hnew row.id hid)
        rw [ids_asStored hsorted, List.map_append]
        rfl
      · exact absurd hmove hmoves
    · exact horder

/-! ### Rows put back -/

variable {p : Projection} {rowId : String} {next : QueuedMessage}

theorem withRow_some (h : withRow p threadId rowId (some next) = some rows) :
    rows = (p.listQueued threadId).map fun r => if r.id ≠ rowId then r else next := by
  unfold withRow at h
  dsimp only at h
  split_ifs at h
  cases h
  rw [List.map_eq_flatMap]
  refine List.flatMap_congr fun r _ => ?_
  split_ifs <;> rfl

theorem withRow_none (h : withRow p threadId rowId none = some rows) :
    rows = (p.listQueued threadId).filter (·.id ≠ rowId) := by
  have hall (l : List QueuedMessage) :
      (l.flatMap fun r => if r.id ≠ rowId then [r] else []) = l.filter (·.id ≠ rowId) := by
    induction l with
    | nil => rfl
    | cons r l ih =>
      rw [List.flatMap_cons, ih]
      by_cases hr : r.id = rowId <;> simp [hr]
  unfold withRow at h
  dsimp only at h
  split_ifs at h
  cases h
  exact hall _

theorem orders_put (hid : next.id = rowId)
    (hsorted : ((w.listQueued threadId).map fun r => if r.id ≠ rowId then r else next).Pairwise
      (·.position ≤ ·.position))
    (h : withRow w.db.projection threadId rowId (some next) = some rows) :
    Orders newId moves w threadId rows := by
  obtain rfl := withRow_some h
  refine .inl ⟨?_, hsorted⟩
  have hids : ((w.listQueued threadId).map fun r => if r.id ≠ rowId then r else next).map (·.id) =
      (w.listQueued threadId).map (·.id) := by
    rw [List.map_map]
    refine List.map_congr_left fun r _ => ?_
    by_cases hr : r.id = rowId <;> simp [hr, hid]
  exact hids ▸ .refl _

/-- The row, at the position it had, sorts to where its row stands now. -/
def staysPut (rows : List QueuedMessage) (still : QueuedMessage) : Bool :=
  decide ((rows.map fun r => if r.id ≠ still.id then r else still).Pairwise (·.position ≤ ·.position))

/-- The thread whose pass puts a row back elsewhere, as its send comes back. -/
def misplaces (w : World) : Action → Option String
  | .resume i answer _ =>
    match w.tasks[i]? with
    | some (.pass threadId (.sending _ still ..)) =>
      if !answer.isDone && !staysPut (w.listQueued threadId) still then some threadId else none
    | _ => none
  | _ => none

variable {still : QueuedMessage}

theorem orders_back (hmoves : staysPut (w.listQueued threadId) still = false → moves threadId)
    (hid : next.id = still.id) (hposition : next.position = still.position)
    (h : withRow w.db.projection threadId still.id (some next) = some rows) :
    Orders newId moves w threadId rows := by
  cases hstays : staysPut (w.listQueued threadId) still with
  | false => exact .inr (.inr (hmoves hstays))
  | true =>
    refine orders_put hid ?_ h
    have hsorted := of_decide_eq_true hstays
    rw [List.pairwise_map] at hsorted ⊢
    refine hsorted.imp fun {a b} hab => ?_
    by_cases ha : a.id = still.id <;> by_cases hb : b.id = still.id <;> simp_all

theorem wrotes_same (h : w'.db = w.db) : Wrotes newId moves w w' := .single (.same h)

theorem wrotes_writes (hbefore : AllNotices before)
    (hafter : AllNotices after) (horders : Orders newId moves w threadId rows) :
    Wrotes newId moves w ((w.append (before ++ queueEvent threadId rows change reason :: after)).getD w) := by
  cases h : w.append (before ++ queueEvent threadId rows change reason :: after) with
  | none => exact .refl
  | some w' => exact .single (.writes hbefore hafter horders h)

theorem wrotes_putBack {next : World → World}
    (hmoves : staysPut (w.listQueued threadId) still = false → moves threadId) (hnext : ∀ m, (next m).db = m.db) :
    Wrotes newId moves w (w.putBack threadId { still with state := .queued } next) := by
  unfold putBack
  split
  · exact wrotes_same (hnext w)
  · rename_i rows hrows
    split
    · exact .refl
    · rename_i m happ
      have horders : Orders newId moves w threadId rows :=
        orders_back hmoves (show ({ still with state := .queued } : QueuedMessage).id = still.id from rfl) rfl hrows
      have hwrites : Wrotes newId moves w ((w.append ([] ++ queueEvent threadId rows none none :: [])).getD w) :=
        wrotes_writes (by simp) (by simp) horders
      rw [List.nil_append, happ] at hwrites
      exact hwrites.trans (wrotes_same (hnext m))

/-! ### Passes -/

theorem wrotes_passStart (threadId : String) : Wrotes newId moves w (w.passStart threadId) := by
  unfold passStart
  split
  · exact .refl
  · split_ifs
    · exact .refl
    · dsimp only
      split_ifs
      · exact wrotes_same rfl
      · exact wrotes_same rfl
      · exact wrotes_same rfl
      · exact wrotes_same rfl
      · split <;> exact wrotes_same rfl

theorem wrotes_passReady (threadId : String) (row : QueuedMessage) (passRef : Nat) (ready : Option Bool) :
    Wrotes newId moves w (w.passReady threadId row passRef ready) := by
  unfold passReady
  split
  · exact .refl
  · exact wrotes_same rfl
  · split
    · exact .refl
    · dsimp only
      split
      · exact .refl
      · split
        · exact .refl
        · rename_i still hstill
          split
          · exact .refl
          · split
            · exact wrotes_same rfl
            · split
              · exact .refl
              · rename_i rows hrows
                split
                · exact .refl
                · rename_i m happ
                  have hid : still.id = row.id := by simpa using List.find?_some hstill
                  have hnone : AllNotices [] := List.forall_mem_nil _
                  have hsending : ({ still with state := .sending } : QueuedMessage).id = row.id := hid
                  refine .tail (.single (.writes hnone hnone (orders_put hsending ?_ hrows) happ)) (.same rfl)
                  -- The row that is written is the one that is there.
                  rw [List.pairwise_map]
                  refine (pairwise_listQueued _ threadId).imp_of_mem fun {a b} ha hb hab => ?_
                  have hsame {r : QueuedMessage} (hr : r ∈ w.listQueued threadId) (hrid : r.id = row.id) :
                      r.position = still.position := by
                    have hone := List.inj_on_of_nodup_map (nodup_listQueued w.db.projection threadId) hr
                      (List.mem_of_find?_eq_some hstill) (hrid.trans hid.symm)
                    rw [hone]
                  by_cases ha' : a.id = row.id <;> by_cases hb' : b.id = row.id <;> simp_all

theorem wrotes_passSent {passRef ref mark : Nat} {result : DeliverResult} (hnotices : Notices result)
    (hmoves : result.isDone = false → staysPut (w.listQueued threadId) still = false → moves threadId) :
    Wrotes newId moves w (w.passSent threadId still passRef ref mark result) := by
  have hwithout (m : World) : Orders newId moves m threadId (m.without threadId still.id) := by
    unfold without
    cases hrows : withRow m.db.projection threadId still.id none with
    | none => exact .inl ⟨.refl _, pairwise_listQueued _ _⟩
    | some rows =>
      have hfilter := withRow_none hrows
      exact hfilter ▸ orders_filter ..
  have hback (n : Nat) : Wrotes newId moves w
      ((w.sendBack threadId (.drained still.id) ref mark result).setFailures passRef n) := wrotes_same rfl
  unfold passSent
  dsimp only
  split
  · exact (hback 0).trans (wrotes_writes (hnotices _ rfl) (by simp) (hwithout _))
  · exact (hback 0).trans (wrotes_writes (show ∀ draft ∈ ([] : List EventDraft), isDispatchNotice draft =
      true by simp)
      (by simp [dispatchFailed, isDispatchNotice, Payload.type]) (hwithout _))
  · rename_i reason
    have hsent : Wrotes newId moves w (w.sendBack threadId (.drained still.id) ref mark (.skipped reason)) :=
      wrotes_same rfl
    refine hsent.trans (wrotes_putBack (hmoves rfl) fun m => ?_)
    split_ifs <;> rfl
  · rename_i reason message
    split_ifs
    · split
      · exact hback 0
      · rename_i rows hrows
        refine (hback 0).trans (wrotes_writes
          (List.forall_mem_nil _)
          (by simp [dispatchFailed, isDispatchNotice, Payload.type]) ?_)
        exact orders_back (hmoves rfl) (show (heldRow still reason).id = still.id from rfl) rfl hrows
    · exact (hback _).trans (wrotes_putBack (hmoves rfl) fun m => rfl)

theorem wrotes_step {a : Action} (hready : ∀ task ∈ w.tasks, task.readRows = [])
    (hmoves : ∀ threadId, w.movesQueue a = some threadId → moves threadId)
    (hmisplaces : ∀ threadId, w.misplaces a = some threadId → moves threadId) (h : w.step a = some w') :
    Wrotes a.newId moves w w' := by
  by_cases hpass : w.passes a = false
  · exact wrotes_of_effects (effects_step hpass (.inl hready) hmoves h)
  unfold step at h
  cases a with
  | resume i answer newId =>
    dsimp only at h
    split_ifs at h
    split at h
    · cases h
    · rename_i task htask
      have htake : Wrotes (some newId) moves w ((w.take i).issue newId) := wrotes_same rfl
      cases task with
      | pass threadId stage =>
        refine htake.trans ?_
        have hgo : ((w.take i).issue newId).passOn threadId newId stage _ = some w' := h
        unfold passOn at hgo
        split at hgo <;> cases hgo
        · exact wrotes_of_effects (show Effects none _ _ _ _ from effects_passRestart ..)
        · exact .refl
        · exact wrotes_passReady ..
        · exact .refl
        · rename_i result
          refine wrotes_passSent (notices_deliverResult _ _ _ _ _ _ _) fun hdone hstays => hmisplaces threadId ?_
          rw [Turn.isDone_deliverResult] at hdone
          have hmoved : staysPut (w.listQueued threadId) _ = false := hstays
          simp [misplaces, htask, hdone, hmoved]
        · refine wrotes_passSent (by simp [Notices]) fun hdone hstays => hmisplaces threadId ?_
          have hmoved : staysPut (w.listQueued threadId) _ = false := hstays
          simp [misplaces, htask, hmoved, Answer.isDone]
      | _ => simp [passes, htask, Task.pass?] at hpass
  | startPass threadId =>
    dsimp only at h
    split_ifs at h
    cases h
    have hbegin : Wrotes (Action.newId (.startPass threadId)) moves w
        { w with drainer := w.drainer.beginPass threadId } := wrotes_same rfl
    exact hbegin.trans (wrotes_passStart _)
  | _ => simp [passes] at hpass

/-! ### Runs -/

end World

/-- Every queue of the batch is one that `queueEvent` makes. -/
def QueuesByEvent (batch : Batch) : Prop :=
  ∀ draft ∈ batch.drafts, ∀ messages change reason, draft.payload = .queueUpdated messages change reason →
    ∃ rows, messages = normalizeQueue rows

theorem Db.numbered_of_appends {batches : List Batch} {db : Db} {written : List (List StoredEvent)}
    (hbatches : ∀ batch ∈ batches, QueuesByEvent batch) (h : Db.empty.appends batches = .ok (db, written))
    (threadId : String) : Numbered (db.projection.listQueued threadId) := by
  refine Db.appends_invariant (C := fun _ event => ∀ messages change reason,
      event.payload = .queueUpdated messages change reason → ∃ rows, messages = normalizeQueue rows)
    (P := fun db _ => Numbered (db.projection.listQueued threadId)) (w := [])
    (fun options ts db sofar raw db' event hP hC hwrite => ?_) (fun db db' _ hsame hP => ?_)
    (show Numbered (Db.empty.projection.listQueued threadId) from numbered_nil)
    (Fold.along_of_forall fun _ batch hbatch => Fold.along_of_forall fun _ draft hdraft => ?_) h
  · obtain ⟨-, happ, -⟩ := Db.writeDraft_projection hwrite
    by_cases hqueue : event.payload.type = .queueUpdated
    · unfold Projection.applyEvent at happ
      cases hpay : event.payload <;> simp [hpay, Payload.type] at hqueue
      simp only [hpay] at happ
      obtain ⟨owner, -, happ⟩ := Except.bind_eq_ok.mp happ
      obtain ⟨rows, rfl⟩ := hC _ _ _ hpay
      rw [listQueued_of_replaceQueue happ]
      split_ifs
      · change Numbered ((asStored threadId rows).insertionSort (·.position ≤ ·.position))
        rw [(numbered_asStored threadId rows).pairwise.insertionSort_eq]
        exact numbered_asStored threadId rows
      · exact hP
    · rcases listQueued_applyEvent hqueue happ threadId with heq | hnone
      · rwa [heq]
      · rw [hnone]
        exact numbered_nil
  · rw [hsame.projection]
    exact hP
  · intro messages change reason hpay
    have htype : draft.payload.type ≠ .turnItemUpdated := by
      rw [← Db.type_stamp, hpay]
      simp [Payload.type]
    exact hbatches batch hbatch draft hdraft messages change reason
      ((Db.payload_stamp_of_type_ne htype).symm.trans hpay)

namespace World

variable {w w' : World} {threadId : String} {ids : List String}

/-- A bridge start finds a store whose queues `queueEvent` made, and a run leads from there to this state. -/
def ReachesWritten (w : World) : Prop :=
  ∃ batches db written now, (∀ batch ∈ batches, QueuesByEvent batch) ∧
    Db.empty.appends batches = .ok (db, written) ∧ Runs.Run step Always (boot db now) w

theorem ReachesWritten.reaches (h : ReachesWritten w) : Reaches Always w := by
  obtain ⟨batches, db, written, now, -, happ, hrun⟩ := h
  exact ⟨batches, db, written, now, happ, hrun⟩

variable {C : World → Action → Prop}

theorem ids_of_reaches (h : Reaches C w) : Turn.Ids w none none := by
  obtain ⟨batches, db, written, now, -, hrun⟩ := h
  exact ids_of_run hrun (Turn.ids_of_booted (booted_boot db now))

variable {newId : Option String} {moves : String → Prop}

private theorem numbered_wrotes (h : Wrotes newId moves w w') (hnumbered : Numbered (w.listQueued threadId)) :
    Numbered (w'.listQueued threadId) := by
  induction h with
  | refl => exact hnumbered
  | tail _ hlast ih => exact numbered_wrote hlast ih

variable {a : Action}

theorem numbered_step (hready : ∀ task ∈ w.tasks, task.readRows = []) (h : w.step a = some w')
    (hnumbered : Numbered (w.listQueued threadId)) : Numbered (w'.listQueued threadId) :=
  have hwrotes : Wrotes a.newId (fun _ => True) w w' :=
    wrotes_step hready (fun _ _ => trivial) (fun _ _ => trivial) h
  numbered_wrotes hwrotes hnumbered

theorem numbered_boot {db : Db} (now : Int) (h : Numbered (db.projection.listQueued threadId)) :
    Numbered ((boot db now).listQueued threadId) := by
  have hhold (w : World) (id : String) (hw : Numbered (w.listQueued threadId)) :
      Numbered ((w.holdRestart id).listQueued threadId) := by
    unfold holdRestart
    dsimp only
    split
    · exact hw
    · split
      · exact hw
      · rename_i m happ
        change Numbered (m.listQueued threadId)
        have hnone : AllNotices [] := List.forall_mem_nil _
        rw [listQueued_writes hnone hnone happ]
        split_ifs
        · exact numbered_asStored _ _
        · exact hw
  have hfold (owners : List String) (w : World) (hw : Numbered (w.listQueued threadId)) :
      Numbered ((owners.foldl holdRestart w).listQueued threadId) := by
    induction owners generalizing w with
    | nil => exact hw
    | cons owner owners ih => exact ih _ (hhold w owner hw)
  exact hfold _ _ h

theorem ReachesWritten.numbered (h : ReachesWritten w) (threadId : String) : Numbered (w.listQueued threadId) := by
  obtain ⟨batches, db, written, now, hbatches, happ, hrun⟩ := h
  induction hrun with
  | refl => exact numbered_boot now (Db.numbered_of_appends hbatches happ threadId)
  | next hm _ hstep ih =>
    have hids := ids_of_run hm (Turn.ids_of_booted (booted_boot db now))
    exact numbered_step (fun task htask => hids.ready task (by simpa using htask)) hstep ih

theorem issued_of_run (h : Runs.Run step C w w') (hids : ∀ id ∈ ids, id ∈ w.issued) :
    ∀ id ∈ ids, id ∈ w'.issued := by
  refine Turn.run_invariant (Q := fun w _ _ => ∀ id ∈ ids, id ∈ w.issued) (fun t t' ht _ _ hpart id hid => ?_) h hids
  rcases Turn.issued_of_part hpart with ⟨hissued, -⟩ | ⟨newId, -, hworld, -⟩
  · exact hissued ▸ ht id hid
  · rw [hworld]
    exact List.mem_cons_of_mem _ (ht id hid)

/-! ### A reorder -/

def Reordered (w : World) (threadId : String) (ids : List String) (ctx : EffectContext) (newId : String)
    (w' : World) : Prop :=
  w.step (.command (.queuedReorder threadId ids) ctx newId) = some w' ∧
    ∃ sequence, w'.log.head? = some (.answered ctx.commandId (some (.ok sequence threadId)))

theorem ids_filterMap_find? {rows : List QueuedMessage} {ids : List String}
    (h : ∀ id ∈ ids, rows.any (·.id = id) = true) :
    (ids.filterMap fun id => rows.find? (·.id = id)).map (·.id) = ids := by
  induction ids with
  | nil => rfl
  | cons id ids ih =>
    have hrest := ih fun other hother => h other (List.mem_cons_of_mem _ hother)
    obtain ⟨row, hrow, hid⟩ := List.any_eq_true.mp (h id List.mem_cons_self)
    obtain ⟨found, hfound⟩ := Option.isSome_iff_exists.mp
      (List.find?_isSome.mpr ⟨row, hrow, hid⟩ : (rows.find? (·.id = id)).isSome = true)
    have hfoundId : found.id = id := by simpa using List.find?_some hfound
    simp [hfound, hrest, hfoundId]

variable {ctx : EffectContext}

theorem commit_ok {drafts : List EventDraft} {sequence : Nat}
    (h : (w.commit drafts ctx threadId).log.head? = some (.answered ctx.commandId (some (.ok sequence threadId)))) :
    ∃ m, w.append drafts { commandId := some ctx.commandId, receipt := some ctx.receipt } = some m ∧
      (w.commit drafts ctx threadId).db = m.db := by
  unfold commit at h ⊢
  cases hcommit : w.commit? drafts ctx threadId with
  | none =>
    rw [hcommit] at h
    simp [threw, observe] at h
  | some w' =>
    obtain ⟨m, hm, rfl⟩ := Turn.commit?_eq_some hcommit
    exact ⟨m, hm, rfl⟩

theorem Reordered.listQueued {newId : String} (h : w.Reordered threadId ids ctx newId w') :
    (w'.listQueued threadId).map (·.id) = ids := by
  obtain ⟨hstep, sequence, hok⟩ := h
  unfold step at hstep
  dsimp only at hstep
  split_ifs at hstep
  cases hstep
  generalize w.issue newId = m at hok ⊢
  have hrefused {outcome : EffectOutcome} (hne : ∀ sequence id, outcome ≠ .ok sequence id)
      (hhead : (m.answer ctx outcome).log.head? = some (.answered ctx.commandId (some (.ok sequence threadId)))) :
      False := by
    simp [answer, observe] at hhead
    exact hne _ _ hhead
  simp only [World.command, reorder] at hok ⊢
  by_cases hempty : threadId = ""
  · rw [if_pos hempty] at hok
    exact (hrefused (by simp [invalid, refuse]) hok).elim
  rw [if_neg hempty] at hok ⊢
  cases hthread : m.getThread threadId with
  | none =>
    rw [hthread] at hok
    exact (hrefused (by simp [notFound, refuse]) hok).elim
  | some thread =>
    rw [hthread] at hok
    dsimp only at hok ⊢
    split_ifs at hok ⊢ with hstale hsame
    · exact (hrefused (by simp [conflict, refuse]) hok).elim
    · obtain ⟨m', happ, hdb⟩ := commit_ok hok
      have hnoted := noted_append (by simp) happ
      rw [hsame, World.listQueued, hdb, Projection.listQueued, hnoted.queuedMessages]
      rfl
    · obtain ⟨m', happ, hdb⟩ := commit_ok hok
      have hall : ∀ id ∈ ids, (m.listQueued threadId).any (·.id = id) = true := by
        intro id hid
        by_contra hnone
        refine hstale (Bool.or_eq_true_iff.mpr (.inr ?_))
        rw [Bool.not_eq_true', List.all_eq_false]
        exact ⟨id, hid, hnone⟩
      rw [World.listQueued, hdb]
      have hnone : AllNotices [] := List.forall_mem_nil _
      refine (congrArg _ (listQueued_writes hnone hnone happ threadId)).trans ?_
      rw [if_pos rfl, ids_asStored (numbered_mapIdx _).pairwise]
      refine Eq.trans ?_ (ids_filterMap_find? hall)
      refine List.ext_getElem (by simp) fun i _ _ => ?_
      simp

/-- The steps that neither move the thread's queue, as a reorder or a steer does, nor misplace a row of it. -/
def KeepsOrder (threadId : String) (w : World) (a : Action) : Prop :=
  w.movesQueue a ≠ some threadId ∧ w.misplaces a ≠ some threadId

instance (threadId : String) (w : World) (a : Action) : Decidable (KeepsOrder threadId w a) :=
  inferInstanceAs (Decidable (_ ∧ _))

theorem inOrder_wrotes (h : Wrotes newId moves w w') (hmoves : ¬ moves threadId)
    (hnew : ∀ id, newId = some id → id ∉ ids) (hnumbered : Numbered (w.listQueued threadId))
    (horder : InOrder ids (w.listQueued threadId)) :
    InOrder ids (w'.listQueued threadId) := by
  have hboth : Numbered (w'.listQueued threadId) ∧ InOrder ids (w'.listQueued threadId) := by
    induction h with
    | refl => exact ⟨hnumbered, horder⟩
    | tail _ hlast ih => exact ⟨numbered_wrote hlast ih.1, inOrder_wrote hlast hmoves hnew ih.1 ih.2⟩
  exact hboth.2

theorem newId_notMem {id : String} (h : w.step a = some w') (hid : a.newId = some id) : id ∉ w.issued := by
  unfold step at h
  cases a <;> cases hid <;> dsimp only at h <;> split_ifs at h <;> assumption

/-- The order of an accepted reorder survives every step after it, up to the next reorder or steer of the
thread, in which no send that comes back misplaces its row. -/
theorem reorder_kept {m : World} {ctx : EffectContext} {newId : String} (hm : ReachesWritten m)
    (h : m.Reordered threadId ids ctx newId w) (hrun : Runs.Run step (KeepsOrder threadId) w w') :
    InOrder ids (w'.listQueued threadId) := by
  have hmids := ids_of_reaches hm.reaches
  have hready (m : World) (hids : Turn.Ids m none none) : ∀ task ∈ m.tasks, task.readRows = [] :=
    fun task htask => hids.ready task (by simpa using htask)
  have hwids : Turn.Ids w none none := ids_of_run (C := Always) (.next .refl trivial h.1) hmids
  have hissued : ∀ id ∈ ids, id ∈ w.issued := by
    intro id hid
    rw [← h.listQueued] at hid
    obtain ⟨row, hrow, rfl⟩ := List.mem_map.mp hid
    exact (hwids.queued row.id (by simp [World.getQueued, (mem_listQueued.mp hrow).1])).1
  have hall : Numbered (w'.listQueued threadId) ∧ InOrder ids (w'.listQueued threadId) := by
    induction hrun with
    | refl =>
      refine ⟨numbered_step (hready m hmids) h.1 (hm.numbered threadId), ids, [], ?_, .refl _, by simp⟩
      rw [h.listQueued, List.append_nil]
    | @next m' w' a hmrun hC hstep ih =>
      have hids := ids_of_run hmrun hwids
      have hwrotes : Wrotes a.newId (· ≠ threadId) m' w' :=
        wrotes_step (hready m' hids) (fun id hid heq => hC.1 (heq ▸ hid)) (fun id hid heq => hC.2 (heq ▸ hid)) hstep
      refine ⟨numbered_step (hready m' hids) hstep ih.1,
        inOrder_wrotes hwrotes (not_not.mpr rfl) (fun id hid hmem => ?_) ih.1 ih.2⟩
      · exact newId_notMem hstep hid (issued_of_run hmrun hissued id hmem)
  exact hall.2

/-- Three messages are queued behind a working run, which ends; the first of them is handed over. -/
def threeQueued : List Action :=
  [.command (.messageDispatch "t1" "one" [] .queue) (testContext "c1") "a",
    .command (.messageDispatch "t1" "two" [] .queue) (testContext "c2") "b",
    .command (.messageDispatch "t1" "three" [] .queue) (testContext "c3") "c", statusBatch .idle 2000,
    .startPass "t1", .resume 4 (.composer (some true)) "n1"]

/-- The first message is moved to the back while it is sent; the actions follow. -/
private def movesBack (C : World → Action → Prop) [∀ w a, Decidable (C w a)] (actions : List Action)
    (p : World → Bool) (m : World) : Bool :=
  (m.step (.command (.queuedReorder "t1" ["b", "c", "a"]) (testContext "c4") "n2")).any fun w =>
    (match w.log.head? with
      | some (.answered commandId (some (.ok _ threadId))) => decide (commandId = "c4" ∧ threadId = "t1")
      | _ => false) &&
      (Runs.exec step C w actions).any p

variable {p : World → Bool}

theorem exists_of_movesBack [∀ w a, Decidable (C w a)] {actions : List Action} {m : World}
    (h : movesBack C actions p m = true) :
    ∃ w w', m.Reordered "t1" ["b", "c", "a"] (testContext "c4") "n2" w ∧ Runs.Run step C w w' ∧ p w' = true := by
  obtain ⟨w, hstep, hboth⟩ := (Option.any_eq_true _ _).mp h
  obtain ⟨hhead, hrest⟩ := Bool.and_eq_true_iff.mp hboth
  obtain ⟨w', hrun, hp⟩ := Runs.exists_run_of_exec hrest
  refine ⟨w, w', ⟨hstep, ?_⟩, hrun, hp⟩
  split at hhead
  · rename_i heq
    obtain ⟨rfl, rfl⟩ := of_decide_eq_true hhead
    exact ⟨_, heq⟩
  · cases hhead

theorem reachesWritten_of_exec (status : ThreadStatus) (actions : List Action)
    (h : (Runs.exec step Always (boot (dispatchDb status) 0) actions).any p = true) :
    ∃ w, ReachesWritten w ∧ p w = true := by
  obtain ⟨w, hrun, hp⟩ := Runs.exists_run_of_exec h
  obtain ⟨written, happ⟩ := appends_dispatchDb status
  refine ⟨w, ⟨_, _, written, 0, fun batch hbatch draft hdraft messages change reason hpay => ?_, happ, hrun⟩, hp⟩
  obtain rfl := List.mem_singleton.mp hbatch
  rcases List.mem_cons.mp hdraft with rfl | hdraft
  · cases hpay
  · obtain rfl := List.mem_singleton.mp hdraft
    cases hpay

/-- In every state a thread's queue is numbered from 0 on, and a thread with a queue is there. -/
theorem queues_in_line (h : ReachesWritten w) (threadId : String) : Numbered (w.listQueued threadId) ∧
    (w.listQueued threadId ≠ [] → (w.db.projection.getThread threadId).isSome = true) := by
  refine ⟨h.numbered threadId, fun hne => ?_⟩
  obtain ⟨row, hrow⟩ := List.exists_mem_of_ne_nil _ hne
  obtain ⟨hqueued, rfl⟩ := mem_listQueued.mp hrow
  exact (h.reaches.owned row.id row hqueued).2

theorem queues_in_line_three : ∃ w : World, (w.listQueued "t1").length = 3 ∧ Numbered (w.listQueued "t1") := by
  obtain ⟨w, hw, hthree⟩ := reachesWritten_of_exec .working threeQueued
    (p := fun w => (w.listQueued "t1").length = 3) (by decide +kernel)
  exact ⟨w, of_decide_eq_true hthree, (queues_in_line hw "t1").1⟩

/-- The send comes back done after a fourth message was added: the others stand as they were put. -/
theorem reorder_kept_sent : ∃ m w w', ReachesWritten m ∧
    m.Reordered "t1" ["b", "c", "a"] (testContext "c4") "n2" w ∧ Runs.Run step (KeepsOrder "t1") w w' ∧
      (w'.listQueued "t1").map (·.id) = ["b", "c", "d"] ∧ InOrder ["b", "c", "a"] (w'.listQueued "t1") := by
  obtain ⟨m, hm, hmoves⟩ := reachesWritten_of_exec .working threeQueued (p := movesBack (KeepsOrder "t1")
      [.command (.messageDispatch "t1" "four" [] .queue) (testContext "c5") "d", .resume 4 (.send (.done .sent)) "n3"]
      fun w => decide ((w.listQueued "t1").map (·.id) = ["b", "c", "d"])) (by decide +kernel)
  obtain ⟨w, w', hreordered, hrun, hids⟩ := exists_of_movesBack hmoves
  exact ⟨m, w, w', hm, hreordered, hrun, of_decide_eq_true hids, reorder_kept hm hreordered hrun⟩

/-- A send that is skipped puts its row where it stood before the reorder. -/
theorem reorder_undone_by_skipped : ¬ ∀ m, ReachesWritten m → ∀ threadId ids ctx newId w,
    m.Reordered threadId ids ctx newId w → ∀ w', Runs.Run step (fun w a => w.movesQueue a ≠ some threadId) w w' →
        InOrder ids (w'.listQueued threadId) := by
  intro h
  obtain ⟨m, hm, hmoves⟩ := reachesWritten_of_exec .working threeQueued
    (p := movesBack (fun w a => w.movesQueue a ≠ some "t1") [.resume 4 (.send .busy) "n3"]
      fun w => decide ((w.listQueued "t1").map (·.id) = ["b", "a", "c"])) (by decide +kernel)
  obtain ⟨w, w', hreordered, hrun, hids⟩ := exists_of_movesBack hmoves
  obtain ⟨kept, later, heq, hkept, hlater⟩ := h m hm _ _ _ _ w hreordered w' hrun
  rw [of_decide_eq_true hids] at heq
  have hnone : later = [] := by
    refine List.eq_nil_iff_forall_not_mem.mpr fun id hid => hlater id hid ?_
    have hmem : id ∈ ["b", "a", "c"] := heq ▸ List.mem_append_right _ hid
    simp only [List.mem_cons, List.not_mem_nil, or_false] at hmem ⊢
    tauto
  rw [hnone, List.append_nil] at heq
  rw [← heq] at hkept
  exact absurd hkept (by decide)

end World

end Sightr
