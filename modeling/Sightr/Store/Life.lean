import Sightr.Store.Erase

/-!
# What a store keeps over its life

Whatever is appended, deleted and pruned, the sequences of `bridge/threads/store.ts` are handed out one after
another, the log is what was written, a command's receipt keeps it from running again while it is retained, and
no row of the search index, no checkpoint and no patch outlives what it hangs on.
-/

namespace Sightr

open Keyed (Table)

namespace Ledger

variable {l l' : Ledger} {db db' : Db} {written : List StoredEvent} {C : Ledger → StoreOp → Prop}

/-! ### Sequences -/

/-- The sequences of all events ever written are consecutive, and the log is made of these events as they
were stored, in their order. -/
structure Unaltered (l : Ledger) : Prop where
  consecutive : l.written.map (·.sequence) = List.range' 1 l.db.seq
  events : l.db.events.Sublist (l.written.map StoredEvent.toJson)

theorem Unaltered.writeDraft {options : AppendOptions} {ts : Int} {raw : EventDraft} {event : StoredEvent}
    (h : Unaltered ⟨db, written⟩) (hwrite : Db.writeDraft options ts db raw = .ok (db', event)) :
    Unaltered ⟨db', written ++ [event]⟩ := by
  obtain ⟨-, -, hsequence, hseq⟩ := Db.writeDraft_projection hwrite
  have hlog : (db.insertEvent event).events.Sublist ((written ++ [event]).map StoredEvent.toJson) := by
    rw [List.map_append]
    exact h.events.append_right _
  constructor
  · simp [h.consecutive, hseq, hsequence, List.range'_concat, Nat.add_comm]
  · obtain ⟨p, -, happ⟩ := Except.bind_eq_ok.mp (Db.writeDraft_eq_ok.mp hwrite).2
    split at happ <;> cases happ
    · exact List.filter_sublist.trans hlog
    · exact hlog

theorem unaltered_of_run (h : Runs.Run step C new l) : l.Unaltered := by
  refine h.invariant (P := Unaltered) (fun l op l' hl _ hstep => ?_) ⟨rfl, List.Sublist.refl _⟩
  cases op with
  | append batch =>
    obtain ⟨db, written, happ, rfl⟩ := step_append_eq_some.mp hstep
    obtain ⟨m, hm, hsame⟩ := Db.append_eq_ok happ
    have hall : Unaltered ⟨m, l.written ++ written⟩ :=
      Fold.traceM_invariant (C := fun _ _ => True) (w := [])
        (P := fun m sofar => Unaltered ⟨m, l.written ++ sofar⟩)
        (fun _ _ _ _ _ hs _ hwrite => by simpa using hs.writeDraft hwrite) (by simpa using hl)
        (Fold.along_of_forall fun _ _ _ => trivial) hm
    exact ⟨hsame.seq ▸ hall.consecutive, hsame.events ▸ hall.events⟩
  | prune at_ =>
    cases hstep
    exact ⟨hl.consecutive, List.filter_sublist.trans hl.events⟩

theorem unaltered_of_run_pruned : ∃ l, Runs.exec step FromBelow new prunedRun = some l ∧ l.Unaltered :=
  have hrun : (Runs.exec step FromBelow new prunedRun).isSome = true := by decide
  ⟨_, (Option.some_get hrun).symm, unaltered_of_run (Runs.run_of_exec (Option.some_get hrun).symm)⟩

/-! ### Receipts -/

/-- No prune takes the receipt before its retention is over. -/
def Retains (r : CommandReceipt) (_ : Ledger) : StoreOp → Prop
  | .append _ => True
  | .prune at_ => at_ ≤ r.ts + RETAIN_RECEIPTS_MS

/-- A receipt that is written stays as it is, and no batch is accepted that would write another. -/
theorem receipt_of_run {r : CommandReceipt} (hr : l.db.receipts.find? r.commandId = some r)
    (h : Runs.Run step (Retains r) l l') : l'.db.receipts.find? r.commandId = some r ∧
      ∀ batch : Batch, batch.options.commandId = some r.commandId → batch.options.receipt.isSome = true →
        l'.step (.append batch) = none := by
  have hkept : l'.db.receipts.find? r.commandId = some r := by
    refine h.invariant (P := fun l => l.db.receipts.find? r.commandId = some r) (fun l op l' hl hC hstep => ?_) hr
    cases op with
    | append batch =>
      obtain ⟨db, written, happ, rfl⟩ := step_append_eq_some.mp hstep
      obtain hsame | ⟨r', -, -, hinsert⟩ := Db.append_receipts happ
      · rwa [hsame]
      · rw [Table.find?_insert? hinsert, if_neg, hl]
        intro hid
        exact (Table.insert?_eq_some_iff.mp hinsert).1 (hid ▸ List.mem_map_of_mem (Table.mem_of_find? hl))
    | prune at_ =>
      cases hstep
      have hyoung : at_ ≤ r.ts + RETAIN_RECEIPTS_MS := hC
      simp only [Db.prune, Table.find?_filter, hl, Option.filter_some]
      exact if_pos (by simp; omega)
  refine ⟨hkept, fun batch hid hreceipt => ?_⟩
  obtain ⟨receipt, hreceipt⟩ := Option.isSome_iff_exists.mp hreceipt
  by_contra hsome
  obtain ⟨l'', hstep⟩ := Option.ne_none_iff_exists'.mp hsome
  obtain ⟨db, written, happ, -⟩ := step_append_eq_some.mp hstep
  obtain ⟨⟨m, out⟩, hm, happ⟩ := Except.bind_eq_ok.mp happ
  obtain ⟨m', hwrite, -⟩ := Except.bind_eq_ok.mp happ
  simp only [Db.writeReceipt, hid, hreceipt] at hwrite
  split at hwrite
  · cases hwrite
  · rename_i receipts hinsert
    have hnew := (Table.insert?_eq_some_iff.mp hinsert).1
    rw [Db.traceM_receipts hm] at hnew
    exact hnew (List.mem_map.mpr ⟨r, Table.mem_of_find? hkept, rfl⟩)

def createOnce : Batch where
  drafts := [createProject (testProject "w1")]
  options := { commandId := some "c1", receipt := some ("project.create", none) }
  ts := 0

theorem receipt_of_run_createOnce : ∃ l l', new.step (.append createOnce) = some l ∧
    l.step (.prune RETAIN_RECEIPTS_MS) = some l' ∧ l'.step (.append createOnce) = none :=
  ⟨_, _, rfl, rfl, (receipt_of_run (r := ⟨"c1", "project.create", 1, none, 0⟩) rfl
    (.next (a := .prune RETAIN_RECEIPTS_MS) .refl (Int.zero_add RETAIN_RECEIPTS_MS).ge rfl)).2 createOnce rfl rfl⟩

end Ledger

/-! ### Rows that hang on others -/

namespace Indexed

variable {textOf : TurnItemBody → String} {ix : Indexed} {C : Indexed → StoreOp → Prop}

/-- Whatever was accepted, refused and pruned: what the search index holds is of items that are there, under a
number no other item has, and checkpoints and patches are of runs that are there. -/
theorem no_orphans_of_run (h : Runs.Run (fun ix => ix.step textOf) C new ix) :
    (∀ e ∈ ix.search.entries, ix.db.projection.turnItems.has e.key = true) ∧
      (∀ e ∈ ix.search.entries, ∀ e' ∈ ix.search.entries, e.rowid = e'.rowid → e.key = e'.key) ∧
      (∀ row ∈ ix.db.projection.runCheckpoints.rows, ix.db.projection.runs.has row.runId = true) ∧
      ∀ row ∈ ix.db.patches.rows, ix.db.projection.runs.has row.runId = true := by
  have hkept := kept_of_run h
  refine ⟨fun e he => ?_, fun e he e' he' hn => ?_, hkept.checkpoints, hkept.patches⟩
  · rw [← hkept.keys]
    exact Table.has_iff.mpr ⟨_, hkept.search.entries e he, rfl⟩
  · have hsame := hkept.search.apart _ (hkept.search.entries e he) _ (hkept.search.entries e' he') hn
    exact congrArg Prod.fst hsame

theorem no_orphans_of_run_text : ∃ ix : Indexed, ix.search.entries ≠ [] ∧
    ∀ e ∈ ix.search.entries, ix.db.projection.turnItems.has e.key = true := by
  have hexec : (Runs.exec (fun ix => step (fun _ => "hello") ix) (fun _ _ => True) new
      [.append { drafts := [createProject (testProject "w1"), createThread (testThread "t1"), writeText "i1" none]
                 ts := 1 }]).any (fun ix => ix.search.entries ≠ []) = true := by
    decide +kernel
  obtain ⟨ix, hrun, hix⟩ := Runs.exists_run_of_exec hexec
  exact ⟨ix, of_decide_eq_true hix, (no_orphans_of_run hrun).1⟩

end Indexed

end Sightr
