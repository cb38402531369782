import Mathlib.Data.List.Sort
import Sightr.Lib.Table

/-!
# Which checkpoints are kept

The rows that the retention sweep of `bridge/threads/checkpoints.ts` reads, the refs that belong to them, and
`dueRows`. A row is a run's checkpoint joined with its run's and its thread's times. Thread ids are plain, or their
hashes differ; paths are as `samePath` compares them.
-/

namespace Sightr.Checkpoints

def CHECKPOINT_KEEP_RUNS : Nat := 50
def DAY_MS : Int := 24 * 60 * 60 * 1000
def CHECKPOINT_KEEP_DAYS : Int := 14
def ARCHIVED_KEEP_MS : Int := 24 * 60 * 60 * 1000
def PENDING_MAX_MS : Int := 24 * 60 * 60 * 1000

inductive CheckpointStatus
  | pending | ready | absent
  deriving DecidableEq

structure CheckpointSweepRow where
  runId : String
  threadId : String
  appRunOrdinal : Nat
  status : CheckpointStatus
  repoRoot : String := ""
  startCommit : Option String := none
  endCommit : Option String := none
  startAt : Option Int := none
  runStartedAt : Int
  threadArchivedAt : Option Int := none
  objectsExpiredAt : Option Int := none
  deriving DecidableEq

inductive SnapshotSide
  | start | stop
  deriving DecidableEq

/-- A ref under `refs/checkpoints/`: one of a run, or any other. -/
inductive Ref
  | run (threadId : String) (ordinal : Nat) (side : SnapshotSide)
  | other (name : String)
  deriving DecidableEq

def refsOf (r : CheckpointSweepRow) : List Ref :=
  [.run r.threadId r.appRunOrdinal .start, .run r.threadId r.appRunOrdinal .stop]

def newestFirst (a b : CheckpointSweepRow) : Prop := b.appRunOrdinal ≤ a.appRunOrdinal

instance : DecidableRel newestFirst := fun _ _ => inferInstanceAs (Decidable (_ ≤ _))
instance : Std.Total newestFirst := ⟨fun a b => Nat.le_total b.appRunOrdinal a.appRunOrdinal⟩
instance : IsTrans CheckpointSweepRow newestFirst := ⟨fun _ _ _ hab hbc => Nat.le_trans hbc hab⟩

/-- The age of a start snapshot whose run has not ended. -/
def pendingAge (time : Int) (r : CheckpointSweepRow) : Int := time - r.startAt.getD r.runStartedAt

def isOld (time : Int) (r : CheckpointSweepRow) : Bool :=
  CHECKPOINT_KEEP_DAYS * DAY_MS < time - r.runStartedAt || r.threadArchivedAt.any fun t => ARCHIVED_KEEP_MS < time - t

/-- Is the row due, at its place among its thread's rows? -/
def isDue (time : Int) (r : CheckpointSweepRow) (i : Nat) : Bool :=
  if r.status = .pending then PENDING_MAX_MS < pendingAge time r else CHECKPOINT_KEEP_RUNS ≤ i || isOld time r

def ofThread (rows : List CheckpointSweepRow) (threadId : String) : List CheckpointSweepRow :=
  (rows.filter (·.threadId = threadId)).insertionSort newestFirst

def dueRows (rows : List CheckpointSweepRow) (time : Int) : List String :=
  (rows.map CheckpointSweepRow.threadId).dedup.flatMap fun threadId =>
    (ofThread rows threadId).zipIdx.filterMap fun (r, i) => if isDue time r i then some r.runId else none

def newerRows (rows : List CheckpointSweepRow) (r : CheckpointSweepRow) : List CheckpointSweepRow :=
  rows.filter fun s => s.threadId = r.threadId ∧ s ≠ r ∧ r.appRunOrdinal ≤ s.appRunOrdinal

variable {rows : List CheckpointSweepRow} {time : Int} {r : CheckpointSweepRow}

theorem mem_dueRows {runId : String} (h : runId ∈ dueRows rows time) :
    ∃ r ∈ rows, r.runId = runId ∧ ∃ i, (ofThread rows r.threadId)[i]? = some r ∧ isDue time r i := by
  obtain ⟨threadId, -, h⟩ := List.mem_flatMap.mp h
  obtain ⟨⟨r, i⟩, hmem, hdue⟩ := List.mem_filterMap.mp h
  dsimp only at hdue
  split_ifs at hdue with hdue'
  have hget := List.mem_zipIdx_iff_getElem?.mp hmem
  obtain ⟨hr, hthread⟩ := List.mem_filter.mp ((List.mem_insertionSort newestFirst).mp (List.mem_of_getElem? hget))
  exact ⟨r, hr, Option.some.inj hdue, i, of_decide_eq_true hthread ▸ hget, hdue'⟩

theorem index_le {i : Nat} (hnodup : rows.Nodup) (h : (ofThread rows r.threadId)[i]? = some r) :
    i ≤ (newerRows rows r).length := by
  have hperm := List.perm_insertionSort newestFirst (rows.filter (·.threadId = r.threadId))
  have hsorted := List.pairwise_insertionSort newestFirst (rows.filter (·.threadId = r.threadId))
  have hsplit : ofThread rows r.threadId = (ofThread rows r.threadId).take i ++ r ::
      (ofThread rows r.threadId).drop (i + 1) := by
    obtain ⟨hi, hget⟩ := List.getElem?_eq_some_iff.mp h
    have hdrop := List.drop_eq_getElem_cons hi
    rw [hget] at hdrop
    rw [← hdrop, List.take_append_drop]
  have hlen : ((ofThread rows r.threadId).take i).length = i :=
    List.length_take_of_le (List.getElem?_eq_some_iff.mp h).1.le
  rw [← hlen]
  refine ((List.subperm_of_subset ?_ fun s hs => ?_).length_le)
  · exact ((hperm.nodup_iff).mpr (hnodup.filter _)).sublist (List.take_sublist _ _)
  · have hs' := (List.mem_insertionSort newestFirst).mp (List.mem_of_mem_take hs)
    obtain ⟨hmem, hthread⟩ := List.mem_filter.mp hs'
    refine List.mem_filter.mpr ⟨hmem, decide_eq_true ⟨of_decide_eq_true hthread, ?_, ?_⟩⟩
    · rintro rfl
      have hnodup := (hperm.nodup_iff).mpr (hnodup.filter _)
      change (ofThread rows s.threadId).Nodup at hnodup
      rw [hsplit, List.nodup_append] at hnodup
      exact hnodup.2.2 s hs s List.mem_cons_self rfl
    · change (ofThread rows r.threadId).Pairwise newestFirst at hsorted
      rw [hsplit, List.pairwise_append] at hsorted
      exact hsorted.2.2 s hs r List.mem_cons_self

section

variable (hkeys : (rows.map CheckpointSweepRow.runId).Nodup)
include hkeys

/-- A finished row among its thread's newest, and within both ages, is not due. -/
theorem notMem_dueRows (hr : r ∈ rows) (hstatus : r.status ≠ .pending)
    (hnewest : (newerRows rows r).length < CHECKPOINT_KEEP_RUNS) (hage : isOld time r = false) :
    r.runId ∉ dueRows rows time := by
  intro h
  obtain ⟨s, hs, hid, i, hget, hdue⟩ := mem_dueRows h
  obtain rfl := List.inj_on_of_nodup_map hkeys hs hr hid
  have hi := index_le hkeys.of_map hget
  unfold isDue at hdue
  rw [if_neg hstatus, hage, Bool.or_false, decide_eq_true_iff] at hdue
  omega

theorem age_of_mem_dueRows (hr : r ∈ rows)
    (hstatus : r.status = .pending) (h : r.runId ∈ dueRows rows time) : PENDING_MAX_MS < pendingAge time r := by
  obtain ⟨s, hs, hid, i, -, hdue⟩ := mem_dueRows h
  obtain rfl := List.inj_on_of_nodup_map hkeys hs hr hid
  unfold isDue at hdue
  rw [if_pos hstatus] at hdue
  exact of_decide_eq_true hdue

end

end Sightr.Checkpoints
