import Sightr.Checkpoints.Retention
import Sightr.Lib.Runs

/-!
# Runs that overlap

How `startNow`, `overlapped` and `endNow` of `bridge/threads/checkpoints.ts` mark the checkpoints of runs that
ran in one repository at the same time. A start is recorded after a look at the repository and a turn in the
store's queue; an end waits for its run's start, takes its own turn, and is marked if a recorded start of
another thread's run met it. What a snapshot holds is left out; a look or a turn ends with a record, with an
`absent` one, or not at all.
-/

namespace Sightr.Checkpoints

open Keyed

structure RunTimes where
  id : String
  threadId : String
  startedAt : Int
  completedAt : Option Int := none
  deriving DecidableEq

structure SharedRow where
  runId : String
  threadId : String
  status : CheckpointStatus
  repoRoot : String := ""
  startCommit : Option String := none
  ended : Bool := false
  expired : Bool := false
  shared : Bool := false
  deriving DecidableEq

structure Slot where
  root : String
  runId : String
  side : SnapshotSide
  /-- For an end, the end event's time and the start's commit. -/
  completedAt : Int := 0
  startCommit : Option String := none
  deriving DecidableEq

structure SharedWorld where
  runs : Table RunTimes.id
  rows : Table SharedRow.runId
  /-- The runs whose start looks for its repository. -/
  starting : List String
  /-- The runs whose end waits for its start, and when they ended. -/
  ending : List (String × Int)
  slots : List Slot
  used : List String

/-- The row with its end; the end's payload says what the start did not. -/
def SharedRow.finish (row : SharedRow) (status : CheckpointStatus) (root : String) (startCommit : Option String)
    (shared : Bool) : SharedRow :=
  { row with
    status, repoRoot := if row.repoRoot = "" then root else row.repoRoot, startCommit :=
      row.startCommit.or startCommit
    ended := true, shared }

namespace SharedWorld

def start : SharedWorld := ⟨.empty, .empty, [], [], [], []⟩

variable (w : SharedWorld)

/-- The two runs were going at one moment; a run that goes on has no end. -/
def Meets (a b : RunTimes) : Prop := (∀ c ∈ b.completedAt, a.startedAt ≤ c) ∧ ∀ c ∈ a.completedAt, b.startedAt ≤ c

instance (a b : RunTimes) : Decidable (Meets a b) := inferInstanceAs (Decidable ((∀ c ∈ _, _) ∧ ∀ c ∈ _, _))

/-- Another thread's run in the same repository met the run, as far as the rows say. -/
def overlapped (threadId runId root : String) (startedAt completedAt : Int) : Bool :=
  w.rows.rows.any fun c => c.runId ≠ runId && c.threadId ≠ threadId && c.repoRoot ≠ "" && c.startCommit.isSome &&
    c.repoRoot = root && (w.runs.find? c.runId).any fun run =>
      run.startedAt ≤ completedAt && run.completedAt.all (startedAt ≤ ·)

/-- `checkpoint.captured` of a start: a duplicate, or one of a run that is gone, changes nothing. -/
def captureStart (row : SharedRow) : SharedWorld :=
  if w.runs.has row.runId && !w.rows.has row.runId then { w with rows := w.rows.set row } else w

/-- `checkpoint.captured` of an end: it finishes the row once, and makes it if there was no start. -/
def captureEnd (run : RunTimes) (status : CheckpointStatus) (root : String) (startCommit : Option String)
    (shared : Bool) : SharedWorld :=
  let row := (w.rows.find? run.id).getD { runId := run.id, threadId := run.threadId, status }
  if w.runs.has run.id && !row.ended then
    { w with rows := w.rows.set (row.finish status root startCommit shared) }
  else w

inductive Action
  | started (run : RunTimes)
  | ended (id : String) (completedAt : Int)
  /-- The start found its repository, and asks for a turn. -/
  | startQueued (id root : String)
  /-- The start ends without one: a shell, a disabled or unknown repository, a run learned of late. -/
  | startMissed (id : String) (recorded : Bool)
  | startTurn (i : Nat) (commit : Option String)
  /-- The end's start is over, and its row has a start snapshot: it asks for a turn. -/
  | endQueued (id : String)
  | endMissed (id : String) (recorded : Bool)
  /-- The end's turn: snapshot and diff went well, or not. -/
  | endTurn (i : Nat) (ok : Bool)
  | expired (id : String)
  | deleted (id : String)
  /-- The bridge starts again: the tasks are gone. -/
  | restart

def turn (i : Nat) : Option Slot := (w.slots[i]?).filter fun slot => (w.slots.take i).all (·.root ≠ slot.root)

def step : Action → Option SharedWorld
  | .started run =>
    if run.id ∉ w.used ∧ run.completedAt = none then
      some { w with runs := w.runs.set run, starting := run.id :: w.starting, used := run.id :: w.used }
    else none
  | .ended id completedAt =>
    match w.runs.find? id with
    | some run =>
      if run.completedAt = none then
        some { w with
          runs := w.runs.set { run with completedAt := some completedAt }, ending := (id, completedAt) :: w.ending }
      else none
    | none => none
  | .startQueued id root =>
    if id ∈ w.starting ∧ root ≠ "" then
      some { w with starting := w.starting.erase id, slots := w.slots ++ [{ root, runId := id, side := .start }] }
    else none
  | .startMissed id recorded =>
    if id ∈ w.starting then
      let w := { w with starting := w.starting.erase id }
      match w.runs.find? id with
      | some run => some (if recorded then w.captureStart
        ⟨id, run.threadId, .absent, "", none, false, false, false⟩ else w)
      | none => some w
    else none
  | .startTurn i commit =>
    match w.turn i with
    | some { root, runId, side := .start, .. } =>
      let w := { w with slots := w.slots.eraseIdx i }
      match w.runs.find? runId with
      | some run => some (match commit with
        | some commit => w.captureStart ⟨runId, run.threadId, .pending, root, some commit, false, false, false⟩
        | none => w.captureStart ⟨runId, run.threadId, .absent, root, none, false, false, false⟩)
      | none => some w
    | _ => none
  | .endQueued id =>
    match w.ending.find? (·.1 = id), w.rows.find? id with
    | some (_, completedAt), some row =>
      if id ∉ w.starting ∧ w.slots.all (fun slot => slot.runId ≠ id || slot.side ≠ .start) ∧
          row.ended = false ∧ row.status ≠ .absent ∧ row.startCommit.isSome ∧ row.expired = false then
        some { w with
          ending := w.ending.erase (id, completedAt)
          slots := w.slots ++ [⟨row.repoRoot, id, .stop, completedAt, row.startCommit⟩] }
      else none
    | _, _ => none
  | .endMissed id recorded =>
    match w.ending.find? (·.1 = id) with
    | some (_, completedAt) =>
      let w := { w with ending := w.ending.erase (id, completedAt) }
      match w.runs.find? id with
      | some run => some (if recorded then w.captureEnd run .absent "" none false else w)
      | none => some w
    | none => none
  | .endTurn i ok =>
    match w.turn i with
    | some { root, runId, side := .stop, completedAt, startCommit } =>
      let w := { w with slots := w.slots.eraseIdx i }
      match w.runs.find? runId with
      | some run => some (if ok then
            w.captureEnd run .ready root startCommit (w.overlapped run.threadId runId root run.startedAt completedAt)
          else w.captureEnd run .absent root startCommit false)
      | none => some w
    | _ => none
  | .expired id => some { w with rows := w.rows.modify (fun row =>
      if row.runId = id then { row with expired := true } else row) fun row => by split_ifs <;> rfl }
  | .deleted id => some { w with runs := w.runs.filter (·.id ≠ id), rows := w.rows.filter (·.runId ≠ id) }
  | .restart => some { w with starting := [], ending := [], slots := [] }

/-- A start that is recorded with a snapshot is not behind the end of another thread's run that met it. -/
def inOrder : Action → Bool
  | .startTurn i (some _) =>
    (w.turn i).all fun slot => (w.runs.find? slot.runId).all fun run => w.rows.rows.all fun a =>
      a.status ≠ .ready || a.threadId = run.threadId || a.repoRoot ≠ slot.root ||
        (w.runs.find? a.runId).all fun other => !decide (Meets other run)
  | _ => true

/-- A `ready` row is marked when a recorded start of another thread met its run. -/
def Marked : Prop :=
  ∀ a ∈ w.rows.rows, ∀ b ∈ w.rows.rows, a.status = .ready → a.threadId ≠ b.threadId → b.startCommit.isSome = true →
    a.repoRoot = b.repoRoot → ∀ ra ∈ w.runs.find? a.runId, ∀ rb ∈ w.runs.find? b.runId, Meets ra rb → a.shared = true

structure Sound : Prop where
  marked : w.Marked
  owner : ∀ row ∈ w.rows.rows, ∃ run, w.runs.find? row.runId = some run ∧ run.threadId = row.threadId
  root : ∀ row ∈ w.rows.rows, row.startCommit.isSome = true → row.repoRoot ≠ ""
  ready : ∀ row ∈ w.rows.rows, row.status = .ready → row.startCommit.isSome = true ∧
    ∀ run ∈ w.runs.find? row.runId, run.completedAt ≠ none
  ending : ∀ e ∈ w.ending, ∀ run ∈ w.runs.find? e.1, run.completedAt = some e.2
  stops : ∀ slot ∈ w.slots, slot.side = .stop → ∀ run ∈ w.runs.find? slot.runId, run.completedAt =
      some slot.completedAt ∧
    ∃ row, w.rows.find? slot.runId = some row ∧ row.startCommit.isSome = true ∧ row.repoRoot = slot.root
  starts : ∀ slot ∈ w.slots, slot.root ≠ ""
  starting : w.starting ⊆ w.used
  used : ∀ id, w.runs.has id = true ∨ (∃ e ∈ w.ending, e.1 = id) ∨ (∃ slot ∈ w.slots, slot.runId = id) → id ∈ w.used

variable {w} {next : SharedWorld}

theorem Sound.start : start.Sound where
  marked a ha := by cases ha
  owner row h := by cases h
  root row h := by cases h
  ready row h := by cases h
  ending e h := by cases h
  stops slot h := by cases h
  starts slot h := by cases h
  starting := List.Subset.refl _
  used id h := by
    obtain h | ⟨e, h, -⟩ | ⟨slot, h, -⟩ := h
    · cases h
    · cases h
    · cases h

theorem Sound.fewer (h : w.Sound) {starting : List String} {ending : List (String × Int)} {slots : List Slot}
    (hstarting : starting ⊆ w.starting) (hending : ending ⊆ w.ending) (hslots : slots ⊆ w.slots) :
    Sound { w with starting, ending, slots } := { h with
  ending := fun e he => h.ending e (hending he)
  stops := fun slot hslot => h.stops slot (hslots hslot)
  starts := fun slot hslot => h.starts slot (hslots hslot)
  starting := List.Subset.trans hstarting h.starting
  used := fun id hid => h.used id (hid.imp_right (Or.imp (Exists.imp fun _ he => ⟨hending he.1, he.2⟩)
    (Exists.imp fun _ hslot => ⟨hslots hslot.1, hslot.2⟩))) }

variable {run : RunTimes}

theorem Sound.setRow (h : w.Sound) {row : SharedRow} (hrun : w.runs.find? row.runId = some run)
    (hthread : run.threadId = row.threadId) (hroot : row.startCommit.isSome = true → row.repoRoot ≠ "")
    (hready : row.status = .ready → row.startCommit.isSome = true ∧ run.completedAt ≠ none ∧
      ∀ b ∈ w.rows.rows, b.runId ≠ row.runId → row.threadId ≠ b.threadId → b.startCommit.isSome = true →
      row.repoRoot = b.repoRoot → ∀ rb ∈ w.runs.find? b.runId, Meets run rb → row.shared = true)
    (hothers : ∀ a ∈ w.rows.rows, a.runId ≠ row.runId → a.status = .ready → a.threadId ≠ row.threadId →
      row.startCommit.isSome = true → a.repoRoot = row.repoRoot → ∀ ra ∈ w.runs.find? a.runId, Meets ra run →
      a.shared = true)
    (hstops : ∀ old, w.rows.find? row.runId = some old → old.startCommit.isSome = true →
      row.startCommit.isSome = true ∧ row.repoRoot = old.repoRoot) :
    Sound { w with rows := w.rows.set row } := by
  refine ⟨fun a ha b hb => ?_, fun r hr => ?_, fun r hr => ?_, fun r hr => ?_, h.ending,
      fun slot hslot hside other hother => ?_,
    h.starts, h.starting, h.used⟩
  · intro hready' hne hcommit hsame ra hra rb hrb hmeets
    rcases Table.mem_set.mp ha with rfl | ⟨haold, hane⟩
    · rcases Table.mem_set.mp hb with rfl | ⟨hbold, hbne⟩
      · exact absurd rfl hne
      · obtain rfl : run = ra := Option.some.inj (hrun.symm.trans hra)
        exact (hready hready').2.2 b hbold hbne hne hcommit hsame rb hrb hmeets
    · rcases Table.mem_set.mp hb with rfl | ⟨hbold, hbne⟩
      · obtain rfl : run = rb := Option.some.inj (hrun.symm.trans hrb)
        exact hothers a haold hane hready' hne hcommit hsame ra hra hmeets
      · exact h.marked a haold b hbold hready' hne hcommit hsame ra hra rb hrb hmeets
  · rcases Table.mem_set.mp hr with rfl | ⟨hr, -⟩
    · exact ⟨run, hrun, hthread⟩
    · exact h.owner r hr
  · rcases Table.mem_set.mp hr with rfl | ⟨hr, -⟩
    · exact hroot
    · exact h.root r hr
  · rcases Table.mem_set.mp hr with rfl | ⟨hr, -⟩
    · refine fun hnow => ⟨(hready hnow).1, fun other hother => ?_⟩
      obtain rfl : run = other := Option.some.inj (hrun.symm.trans hother)
      exact (hready hnow).2.1
    · exact h.ready r hr
  · obtain ⟨hcompleted, old, hold, hcommit, hsame⟩ := h.stops slot hslot hside other hother
    refine ⟨hcompleted, ?_⟩
    change ∃ r, (w.rows.set row).find? slot.runId = some r ∧ _
    rw [Table.find?_set]
    split_ifs with hid
    · rw [← hid] at hold
      obtain ⟨hnew, hroot'⟩ := hstops old hold hcommit
      exact ⟨row, rfl, hnew, hroot'.trans hsame⟩
    · exact ⟨old, hold, hcommit, hsame⟩

variable {id root : String} {status : CheckpointStatus} {commit : Option String}

theorem Sound.captureStart (h : w.Sound) (hrun : w.runs.find? id = some run) (hstatus : status ≠ .ready)
    (hroot : commit.isSome = true → root ≠ "")
    (horder : commit.isSome = true → ∀ a ∈ w.rows.rows, a.status = .ready → a.threadId ≠ run.threadId →
      a.repoRoot = root → ∀ ra ∈ w.runs.find? a.runId, ¬Meets ra run) :
    (w.captureStart ⟨id, run.threadId, status, root, commit, false, false, false⟩).Sound := by
  unfold SharedWorld.captureStart
  split_ifs with hnew
  · rw [Bool.and_eq_true, Bool.not_eq_true'] at hnew
    refine h.setRow hrun rfl hroot (fun hready => absurd hready hstatus) ?_ fun old hold => ?_
    · exact fun a ha _ hready hne hcommit hsame ra hra hmeets =>
        absurd hmeets (horder hcommit a ha hready hne hsame ra hra)
    · have hnone := hnew.2
      rw [Table.has, hold] at hnone
      cases hnone
  · exact h

theorem Sound.captureAbsent (h : w.Sound) (hrun : w.runs.find? id = some run) :
    (w.captureStart ⟨id, run.threadId, .absent, root, none, false, false, false⟩).Sound :=
  h.captureStart hrun (by decide) (fun hsome => (Bool.false_ne_true hsome).elim)
    fun hsome => (Bool.false_ne_true hsome).elim

theorem Sound.captureEnd (h : w.Sound) (hrun : w.runs.find? run.id = some run) {shared : Bool}
    (hrow : commit.isSome = true ∨ status = .ready → ∃ row, w.rows.find? run.id = some row ∧
      row.startCommit.isSome = true ∧ row.repoRoot = root)
    (hready : status = .ready → run.completedAt ≠ none ∧ ∀ b ∈ w.rows.rows, b.runId ≠ run.id →
      run.threadId ≠ b.threadId → b.startCommit.isSome = true → root = b.repoRoot →
      ∀ rb ∈ w.runs.find? b.runId, Meets run rb → shared = true) :
    (w.captureEnd run status root commit shared).Sound := by
  cases hold : w.rows.find? run.id with
  | none =>
    have hnone : ¬(commit.isSome = true ∨ status = .ready) := fun hsays => by
      obtain ⟨row, hfound, -⟩ := hrow hsays
      cases hold.symm.trans hfound
    obtain ⟨hcommit, hstatus⟩ := not_or.mp hnone
    obtain rfl : commit = none := Option.not_isSome_iff_eq_none.mp hcommit
    simp only [SharedWorld.captureEnd, hold, Option.getD_none]
    split_ifs
    · exact h.setRow hrun rfl (fun hsome => (Bool.false_ne_true hsome).elim) (fun hnow => absurd hnow hstatus)
        (fun _ _ _ _ _ hsome => (Bool.false_ne_true hsome).elim)
        fun old hfound => absurd (hold.symm.trans hfound) (Option.some_ne_none old).symm
    · exact h
  | some old =>
    simp only [SharedWorld.captureEnd, hold, Option.getD_some]
    split_ifs
    · obtain ⟨hmem, hid⟩ := Table.find?_eq_some_iff.mp hold
      obtain ⟨owner, howner, hthread⟩ := h.owner old hmem
      obtain rfl : run = owner := Option.some.inj (hrun.symm.trans (hid ▸ howner))
      have hcommit (hsome : (old.startCommit.or commit).isSome = true) : old.startCommit.isSome = true := by
        by_cases hsays : commit.isSome = true
        · obtain ⟨row, hfound, hrow, -⟩ := hrow (.inl hsays)
          exact Option.some.inj (hold.symm.trans hfound) ▸ hrow
        · rw [Option.not_isSome_iff_eq_none.mp hsays, Option.or_none] at hsome
          exact hsome
      have hroot (hsome : old.startCommit.isSome = true) :
          (old.finish status root commit shared).repoRoot = old.repoRoot := if_neg (h.root old hmem hsome)
      refine h.setRow (hid ▸ hrun) hthread (fun hsome => ?_) (fun hnow => ?_)
        (fun a ha hne hnow hthreads hsome hsame ra hra hmeets => ?_) fun other hother hsome => ?_
      · rw [hroot (hcommit hsome)]
        exact h.root old hmem (hcommit hsome)
      · obtain ⟨row, hfound, hsome, rfl⟩ := hrow (.inr hnow)
        obtain rfl : row = old := Option.some.inj (hfound.symm.trans hold)
        obtain ⟨hcompleted, hall⟩ := hready hnow
        refine ⟨by simp [SharedRow.finish, hsome], hcompleted, fun b hb hne hthreads hb' hsame rb hrb hmeets => ?_⟩
        rw [hroot hsome] at hsame
        exact hall b hb (hid ▸ hne) (hthread ▸ hthreads) hb' hsame rb hrb hmeets
      · rw [hroot (hcommit hsome)] at hsame
        exact h.marked a ha old hmem hnow hthreads (hcommit hsome) hsame ra hra run (hid ▸ hrun) hmeets
      · have hsame : old = other := Option.some.inj (hold.symm.trans (hid ▸ hother))
        subst hsame
        exact ⟨by simp [SharedRow.finish, hsome], hroot hsome⟩
    · exact h

theorem find?_set_of_used (hnew : run.id ∉ w.used) (hid : id ∈ w.used) :
    (w.runs.set run).find? id = w.runs.find? id :=
  Table.find?_set_of_ne _ fun hsame => hnew (hsame ▸ hid)

theorem Sound.started (h : w.Sound) (hnew : run.id ∉ w.used) :
    Sound { w with runs := w.runs.set run, starting := run.id :: w.starting, used := run.id :: w.used } := by
  have hrow (row : SharedRow) (hmem : row ∈ w.rows.rows) : (w.runs.set run).find? row.runId =
      w.runs.find? row.runId := by
    obtain ⟨owner, howner, -⟩ := h.owner row hmem
    exact find?_set_of_used hnew (h.used _ (.inl (by rw [Table.has, howner]; rfl)))
  refine ⟨fun a ha b hb hready hne hcommit hsame ra hra rb hrb => ?_, fun row hr => ?_, h.root,
      fun row hr hready => ?_,
    fun e he other hother => ?_, fun slot hslot hside other hother => ?_, h.starts,
    List.cons_subset_cons _ h.starting, fun id hid => ?_⟩
  · exact h.marked a ha b hb hready hne hcommit hsame ra (hrow a ha ▸ hra) rb (hrow b hb ▸ hrb)
  · exact (hrow row hr).symm ▸ h.owner row hr
  · exact ⟨(h.ready row hr hready).1, fun other hother => (h.ready row hr hready).2 other (hrow row hr ▸ hother)⟩
  · have hfind := find?_set_of_used hnew (h.used e.1 (.inr (.inl ⟨e, he, rfl⟩)))
    exact h.ending e he other (hfind ▸ hother)
  · have hfind := find?_set_of_used hnew (h.used slot.runId (.inr (.inr ⟨slot, hslot, rfl⟩)))
    exact h.stops slot hslot hside other (hfind ▸ hother)
  · rcases hid with hhas | htask
    · by_cases hsame : run.id = id
      · exact hsame ▸ List.mem_cons_self ..
      · rw [Table.has, show (SharedWorld.runs _).find? id =
        w.runs.find? id from Table.find?_set_of_ne _ hsame] at hhas
        exact List.mem_cons_of_mem _ (h.used id (.inl hhas))
    · exact List.mem_cons_of_mem _ (h.used id (.inr htask))

theorem Sound.ended (h : w.Sound) (hrun : w.runs.find? run.id = some run) (hopen : run.completedAt = none)
    (completedAt : Int) : Sound { w with
      runs := w.runs.set { run with completedAt := some completedAt }, ending := (run.id,
      completedAt) :: w.ending } := by
  -- A run is the old one, or the one that ended.
  have hcases {id : String} {other : RunTimes} (hother :
    (w.runs.set { run with completedAt := some completedAt }).find? id =
      some other) : w.runs.find? id = some other ∧ id ≠ run.id ∨ id = run.id ∧
      other = { run with completedAt := some completedAt } := by
    rw [Table.find?_set] at hother
    split_ifs at hother with hid
    · exact .inr ⟨hid.symm, (Option.some.inj hother).symm⟩
    · exact .inl ⟨hother, Ne.symm hid⟩
  have hnot {id : String} {c : Int} (hid : id = run.id) (hcompleted : ∀ r ∈ w.runs.find? id, r.completedAt =
      some c) : False := by
    have hsome := hcompleted run (hid ▸ hrun)
    rw [hopen] at hsome
    cases hsome
  refine ⟨fun a ha b hb hready hne hcommit hsame ra hra rb hrb hmeets => ?_, fun row hr => ?_, h.root,
      fun row hr hready => ?_,
    fun e he other hother => ?_, fun slot hslot hside other hother => ?_, h.starts, h.starting, fun id hid => ?_⟩
  · rcases hcases hra with ⟨hra, -⟩ | ⟨hid, -⟩
    · rcases hcases hrb with ⟨hrb, -⟩ | ⟨hid, rfl⟩
      · exact h.marked a ha b hb hready hne hcommit hsame ra hra rb hrb hmeets
      · refine h.marked a ha b hb hready hne hcommit hsame ra hra run (hid ▸ hrun) ⟨?_, hmeets.2⟩
        rw [hopen]
        exact fun _ hc => (Option.some_ne_none _ hc.symm).elim
    · exact absurd hopen ((h.ready a ha hready).2 run (hid ▸ hrun))
  · obtain ⟨owner, howner, hthread⟩ := h.owner row hr
    change ∃ r, (w.runs.set _).find? row.runId = some r ∧ _
    rw [Table.find?_set]
    split_ifs with hid
    · obtain rfl : run = owner := Option.some.inj (hrun.symm.trans ((show run.id = row.runId from hid) ▸ howner))
      exact ⟨_, rfl, hthread⟩
    · exact ⟨owner, howner, hthread⟩
  · refine ⟨(h.ready row hr hready).1, fun other hother => ?_⟩
    rcases hcases hother with ⟨hother, -⟩ | ⟨-, rfl⟩
    · exact (h.ready row hr hready).2 other hother
    · exact Option.some_ne_none _
  · rcases List.mem_cons.mp he with rfl | he
    · rcases hcases hother with ⟨-, hne⟩ | ⟨-, rfl⟩
      · exact absurd rfl hne
      · rfl
    · rcases hcases hother with ⟨hother, -⟩ | ⟨hid, -⟩
      · exact h.ending e he other hother
      · exact (hnot hid (h.ending e he)).elim
  · rcases hcases hother with ⟨hother, -⟩ | ⟨hid, -⟩
    · exact h.stops slot hslot hside other hother
    · exact (hnot hid fun r hr => (h.stops slot hslot hside r hr).1).elim
  · refine h.used id ?_
    rcases hid with hhas | ⟨e, he, hid⟩ | hslot
    · left
      rw [Table.has, Option.isSome_iff_exists] at hhas
      obtain ⟨other, hother⟩ := hhas
      rcases hcases hother with ⟨hother, -⟩ | ⟨hid, -⟩
      · rw [Table.has, hother]
        rfl
      · rw [Table.has, hid, hrun]
        rfl
    · rcases List.mem_cons.mp he with rfl | he
      · left
        rw [Table.has, ← hid, hrun]
        rfl
      · exact .inr (.inl ⟨e, he, hid⟩)
    · exact .inr (.inr hslot)

theorem Sound.expired (h : w.Sound) (id : String) : Sound { w with
    rows := w.rows.modify (fun row => if row.runId = id then { row with expired := true } else row)
      fun row => by split_ifs <;> rfl } := by
  -- A row is an old one, but for `expired`.
  have hold {row : SharedRow} (hrow : row ∈ w.rows.rows.map fun row =>
      if row.runId = id then { row with expired := true } else row) :
      ∃ old ∈ w.rows.rows, row = { old with expired := row.expired } := by
    obtain ⟨old, hmem, rfl⟩ := List.mem_map.mp hrow
    refine ⟨old, hmem, ?_⟩
    split_ifs <;> rfl
  refine ⟨fun a ha b hb => ?_, fun row hr => ?_, fun row hr => ?_, fun row hr => ?_, h.ending,
    fun slot hslot hside other hother => ?_, h.starts, h.starting, h.used⟩
  · obtain ⟨a', ha', hae⟩ := hold ha
    obtain ⟨b', hb', hbe⟩ := hold hb
    rw [hae, hbe]
    exact h.marked a' ha' b' hb'
  · obtain ⟨old, hmem, he⟩ := hold hr
    rw [he]
    exact h.owner old hmem
  · obtain ⟨old, hmem, he⟩ := hold hr
    rw [he]
    exact h.root old hmem
  · obtain ⟨old, hmem, he⟩ := hold hr
    rw [he]
    exact h.ready old hmem
  · obtain ⟨hcompleted, row, hrow, hcommit, hroot⟩ := h.stops slot hslot hside other hother
    obtain ⟨hmem, hid⟩ := Table.find?_eq_some_iff.mp hrow
    refine ⟨hcompleted, _, Table.find?_eq_some_iff.mpr ⟨List.mem_map_of_mem hmem, ?_⟩, ?_, ?_⟩
    · split_ifs <;> exact hid
    · split_ifs <;> exact hcommit
    · split_ifs <;> exact hroot

theorem Sound.deleted (h : w.Sound) (id : String) :
    Sound { w with runs := w.runs.filter (·.id ≠ id), rows := w.rows.filter (·.runId ≠ id) } := by
  have hold {key : String} {run : RunTimes} (hrun : (w.runs.filter (·.id ≠ id)).find? key = some run) :
      w.runs.find? key = some run := by
    rw [Table.find?_filter] at hrun
    exact (Option.mem_filter_iff.mp hrun).1
  have hmem {row : SharedRow} (hrow : row ∈ (w.rows.filter (·.runId ≠ id)).rows) : row ∈ w.rows.rows ∧
      row.runId ≠ id := by
    simpa using hrow
  refine ⟨fun a ha b hb hready hne hcommit hsame ra hra rb hrb => ?_, fun row hr => ?_, fun row hr => h.root row
      (hmem hr).1,
    fun row hr hready => ?_, fun e he other hother => h.ending e he other (hold hother),
    fun slot hslot hside other hother => ?_, h.starts, h.starting, fun key hkey => ?_⟩
  · exact h.marked a (hmem ha).1 b (hmem hb).1 hready hne hcommit hsame ra (hold hra) rb (hold hrb)
  · obtain ⟨owner, howner, hthread⟩ := h.owner row (hmem hr).1
    refine ⟨owner, ?_, hthread⟩
    change (w.runs.filter (·.id ≠ id)).find? row.runId = some owner
    rw [Table.find?_filter, howner, Option.filter_some_pos]
    have hkey : owner.id = row.runId := Table.key_of_find? howner
    simpa [hkey] using (hmem hr).2
  · exact ⟨(h.ready row (hmem hr).1 hready).1, fun other hother => (h.ready row (hmem hr).1 hready).2 other
      (hold hother)⟩
  · obtain ⟨hcompleted, row, hrow, hcommit, hroot⟩ := h.stops slot hslot hside other (hold hother)
    refine ⟨hcompleted, row, ?_, hcommit, hroot⟩
    change (w.rows.filter (·.runId ≠ id)).find? slot.runId = some row
    rw [Table.find?_filter, hrow, Option.filter_some_pos]
    have hkey : row.runId = slot.runId := Table.key_of_find? hrow
    have hrun : other.id = slot.runId := Table.key_of_find? (hold hother)
    have hthere := (Option.mem_filter_iff.mp ((Table.find?_filter ..).symm.trans hother)).2
    simpa [hkey, ← hrun] using hthere
  · refine h.used key (hkey.imp_left fun hhas => ?_)
    rw [Table.has, Option.isSome_iff_exists] at hhas ⊢
    obtain ⟨run, hrun⟩ := hhas
    exact ⟨run, hold hrun⟩

variable {i : Nat}

theorem turn_eq_some {slot : Slot} (h : w.turn i = some slot) : slot ∈ w.slots :=
  List.mem_of_getElem? (Option.mem_filter_iff.mp h).1

section

variable (h : w.Sound)
include h

private theorem Sound.startTurn (horder : w.inOrder (.startTurn i commit) = true)
    (hstep : w.step (.startTurn i commit) = some next) : next.Sound := by
  simp only [SharedWorld.step] at hstep
  split at hstep
  · next root runId completedAt startCommit hturn =>
    have hslot := turn_eq_some hturn
    have hfewer : Sound { w with slots := w.slots.eraseIdx i } :=
      h.fewer (List.Subset.refl _) (List.Subset.refl _) (List.eraseIdx_subset ..)
    split at hstep
    · next run hrun =>
      cases hstep
      cases commit with
      | none => exact hfewer.captureAbsent hrun
      | some commit =>
        refine hfewer.captureStart hrun (by decide) (fun _ => h.starts _ hslot)
          fun _ a ha hready hne hsame ra hra hmeets => ?_
        change w.runs.find? a.runId = some ra at hra
        change w.runs.find? runId = some run at hrun
        rw [inOrder, hturn, Option.all_some, hrun, Option.all_some, List.all_eq_true] at horder
        simpa [hready, hne, hsame, hra, hmeets] using horder a ha
    · cases hstep
      exact hfewer
  · cases hstep

private theorem Sound.endTurn {ok : Bool} (hstep : w.step (.endTurn i ok) = some next) : next.Sound := by
  simp only [SharedWorld.step] at hstep
  split at hstep
  · next root runId completedAt startCommit hturn =>
    have hslot := turn_eq_some hturn
    have hfewer : Sound { w with slots := w.slots.eraseIdx i } :=
      h.fewer (List.Subset.refl _) (List.Subset.refl _) (List.eraseIdx_subset ..)
    split at hstep
    · next run hrun =>
      change w.runs.find? runId = some run at hrun
      obtain rfl : run.id = runId := Table.key_of_find? hrun
      obtain ⟨hcompleted, hrow⟩ := h.stops _ hslot rfl run hrun
      cases hstep
      cases ok with
      | false => exact hfewer.captureEnd hrun (fun _ => hrow) fun hnow => absurd hnow (by decide)
      | true =>
        refine hfewer.captureEnd hrun (fun _ => hrow) fun _ => ⟨by rw [hcompleted]; exact Option.some_ne_none _, ?_⟩
        intro b hb hne hthreads hcommit hsame rb hrb hmeets
        change w.runs.find? b.runId = some rb at hrb
        refine List.any_eq_true.mpr ⟨b, hb, ?_⟩
        have hroot := h.root b hb hcommit
        have hbefore := hmeets.2 completedAt hcompleted
        have hafter : rb.completedAt.all (run.startedAt ≤ ·) = true := by
          cases hend : rb.completedAt with
          | none => rfl
          | some c => exact decide_eq_true (hmeets.1 c hend)
        change (_ && (w.runs.find? b.runId).any _) = true
        rw [hrb, Option.any_some]
        simp [hne, Ne.symm hthreads, hcommit, hroot, hsame, hbefore, hafter]
    · cases hstep
      exact hfewer
  · cases hstep

private theorem Sound.startQueued (hmem : id ∈ w.starting) (hroot : root ≠ "") : Sound { w with
      starting := w.starting.erase id, slots := w.slots ++ [{ root, runId := id, side := .start }] } := by
  refine ⟨h.marked, h.owner, h.root, h.ready, h.ending, fun slot hslot hside => ?_, fun slot hslot => ?_,
    List.Subset.trans List.erase_subset h.starting, fun key hkey => ?_⟩
  · rcases List.mem_append.mp hslot with hslot | hslot
    · exact h.stops slot hslot hside
    · obtain rfl := List.mem_singleton.mp hslot
      cases hside
  · rcases List.mem_append.mp hslot with hslot | hslot
    · exact h.starts slot hslot
    · obtain rfl := List.mem_singleton.mp hslot
      exact hroot
  · obtain hhas | hending | ⟨slot, hslot, hid⟩ := hkey
    · exact h.used key (.inl hhas)
    · exact h.used key (.inr (.inl hending))
    · rcases List.mem_append.mp hslot with hslot | hslot
      · exact h.used key (.inr (.inr ⟨slot, hslot, hid⟩))
      · obtain rfl := List.mem_singleton.mp hslot
        exact hid ▸ h.starting hmem

private theorem Sound.endQueued (hstep : w.step (.endQueued id) = some next) : next.Sound := by
  simp only [SharedWorld.step] at hstep
  split at hstep
  · next key completedAt row hending hrow =>
    split_ifs at hstep with hready
    cases hstep
    obtain ⟨-, -, -, -, hcommit, -⟩ := hready
    have hmem := List.mem_of_find?_eq_some hending
    have hkey : key = id := by simpa using List.find?_some hending
    have hfewer : Sound { w with ending := w.ending.erase (id, completedAt) } :=
      h.fewer (List.Subset.refl _) List.erase_subset (List.Subset.refl _)
    refine ⟨h.marked, h.owner, h.root, h.ready, hfewer.ending, fun slot hslot hside run hrun => ?_,
      fun slot hslot => ?_, h.starting, fun key hkey => ?_⟩
    · rcases List.mem_append.mp hslot with hslot | hslot
      · exact h.stops slot hslot hside run hrun
      · obtain rfl := List.mem_singleton.mp hslot
        exact ⟨h.ending _ hmem run (hkey ▸ hrun), row, hrow, hcommit, rfl⟩
    · rcases List.mem_append.mp hslot with hslot | hslot
      · exact h.starts slot hslot
      · obtain rfl := List.mem_singleton.mp hslot
        exact h.root row (Table.mem_of_find? hrow) hcommit
    · obtain hhas | hending' | ⟨slot, hslot, hid⟩ := hkey
      · exact h.used key (.inl hhas)
      · exact hfewer.used key (.inr (.inl hending'))
      · rcases List.mem_append.mp hslot with hslot | hslot
        · exact h.used key (.inr (.inr ⟨slot, hslot, hid⟩))
        · obtain rfl := List.mem_singleton.mp hslot
          exact h.used key (.inr (.inl ⟨_, hmem, by rw [← hid]; assumption⟩))
  · cases hstep

theorem Sound.step {action : Action} (horder : w.inOrder action = true)
    (hstep : w.step action = some next) : next.Sound := by
  cases action with
  | started run =>
    simp only [SharedWorld.step] at hstep
    split_ifs at hstep with hnew
    cases hstep
    exact h.started hnew.1
  | ended id completedAt =>
    simp only [SharedWorld.step] at hstep
    split at hstep
    · next run hrun =>
      split_ifs at hstep with hopen
      cases hstep
      obtain rfl : run.id = id := Table.key_of_find? hrun
      exact h.ended hrun hopen completedAt
    · cases hstep
  | startQueued id root =>
    simp only [SharedWorld.step] at hstep
    split_ifs at hstep with hroot
    cases hstep
    exact h.startQueued hroot.1 hroot.2
  | startMissed id recorded =>
    simp only [SharedWorld.step] at hstep
    have hfewer : Sound { w with starting := w.starting.erase id } :=
      h.fewer List.erase_subset (List.Subset.refl _) (List.Subset.refl _)
    cases hrun : w.runs.find? id with
    | none =>
      rw [hrun] at hstep
      split_ifs at hstep <;> obtain rfl := Option.some.inj hstep <;> exact hfewer
    | some run =>
      rw [hrun] at hstep
      split_ifs at hstep
      · cases hstep
        exact hfewer.captureAbsent hrun
      · cases hstep
        exact hfewer
  | startTurn i commit => exact h.startTurn horder hstep
  | endQueued id => exact h.endQueued hstep
  | endMissed id recorded =>
    simp only [SharedWorld.step] at hstep
    split at hstep
    · next key completedAt hending =>
      have hfewer : Sound { w with ending := w.ending.erase (id, completedAt) } :=
        h.fewer (List.Subset.refl _) List.erase_subset (List.Subset.refl _)
      split at hstep
      · next run hrun =>
        cases hstep
        obtain rfl : run.id = id := Table.key_of_find? hrun
        split_ifs
        · exact hfewer.captureEnd hrun (by simp) fun hnow => absurd hnow (by decide)
        · exact hfewer
      · cases hstep
        exact hfewer
    · cases hstep
  | endTurn i ok => exact h.endTurn hstep
  | expired id =>
    cases hstep
    exact h.expired id
  | deleted id =>
    cases hstep
    exact h.deleted id
  | restart =>
    cases hstep
    exact h.fewer (List.nil_subset _) (List.nil_subset _) (List.nil_subset _)

end

/-- In every run of starts, ends, turns, expiries, deletions and restarts in any order, in which no start is recorded
behind the end of another thread's run that met it: two `ready` checkpoints of one repository, of different threads'
runs that met, are both marked. -/
theorem both_shared (hrun : Runs.Run SharedWorld.step (fun w action => w.inOrder action = true) start w) {a b :
      SharedRow}
    (ha : a ∈ w.rows.rows) (hb : b ∈ w.rows.rows) (hreadyA : a.status = .ready) (hreadyB : b.status = .ready)
    (hthreads : a.threadId ≠ b.threadId) (hroot : a.repoRoot = b.repoRoot) {ra rb : RunTimes}
    (hra : w.runs.find? a.runId = some ra) (hrb : w.runs.find? b.runId = some rb) (hmeets : Meets ra rb) :
    a.shared = true ∧ b.shared = true := by
  have h : w.Sound := hrun.invariant (P := Sound) (fun _ _ _ h horder hstep => h.step horder hstep) Sound.start
  exact ⟨h.marked a ha b hb hreadyA hthreads (h.ready b hb hreadyB).1 hroot ra hra rb hrb hmeets,
    h.marked b hb a ha hreadyB hthreads.symm (h.ready a ha hreadyA).1 hroot.symm rb hrb ra hra ⟨hmeets.2, hmeets.1⟩⟩

/-- Two runs in one repository, each recorded before the other's end. -/
theorem both_shared_met : ∃ w : SharedWorld, ∃ a ∈ w.rows.rows, ∃ b ∈ w.rows.rows, a.status = .ready ∧
      b.status = .ready ∧
    a.threadId ≠ b.threadId ∧ a.shared = true ∧ b.shared = true := by
  obtain ⟨w, hrun, hw⟩ := Runs.exists_run_of_exec
    (show (Runs.exec SharedWorld.step (fun w action => w.inOrder action = true) start
      [.started ⟨"a", "t1", 0, none⟩, .startQueued "a" "/repo", .started ⟨"b", "t2", 5, none⟩,
        .startTurn 0 (some "a0"),
        .startQueued "b" "/repo", .startTurn 0 (some "b0"), .ended "a" 9, .endQueued "a", .endTurn 0 true,
        .ended "b" 12, .endQueued "b", .endTurn 0 true]).any
      (fun w => w.rows.find? "a" = some ⟨"a", "t1", .ready, "/repo", some "a0", true, false, true⟩ &&
        w.rows.find? "b" = some ⟨"b", "t2", .ready, "/repo", some "b0", true, false, true⟩ &&
        w.runs.find? "a" = some ⟨"a", "t1", 0, some 9⟩ && w.runs.find? "b" = some ⟨"b", "t2", 5, some 12⟩) = true by
      decide +kernel)
  simp only [Bool.and_eq_true, decide_eq_true_eq] at hw
  obtain ⟨⟨⟨ha, hb⟩, hra⟩, hrb⟩ := hw
  exact ⟨w, _, Table.mem_of_find? ha, _, Table.mem_of_find? hb, rfl, rfl, by decide,
    both_shared hrun (Table.mem_of_find? ha) (Table.mem_of_find? hb) rfl rfl (by decide) rfl hra hrb (by decide)⟩

/-- A run starts a moment before another ends, and looks for its repository while the other's end takes its turn: both
are `ready`, and the first one is not marked. -/
theorem unmarked_by_late_start : ∃ w : SharedWorld, Runs.Run SharedWorld.step (fun _ _ => True) start w ∧
    w.rows.find? "a" = some ⟨"a", "t1", .ready, "/repo", some "a0", true, false, false⟩ ∧
    w.rows.find? "b" = some ⟨"b", "t2", .ready, "/repo", some "b0", true, false, true⟩ ∧
    w.runs.find? "a" = some ⟨"a", "t1", 0, some 1000⟩ ∧ w.runs.find? "b" = some ⟨"b", "t2", 990, some 5000⟩ ∧
    Meets ⟨"a", "t1", 0, some 1000⟩ ⟨"b", "t2", 990, some 5000⟩ := by
  obtain ⟨w, hrun, hw⟩ := Runs.exists_run_of_exec (show (Runs.exec SharedWorld.step (fun _ _ => True) start
      [.started ⟨"a", "t1", 0, none⟩, .startQueued "a" "/repo", .startTurn 0 (some "a0"),
        .started ⟨"b", "t2", 990, none⟩,
        .ended "a" 1000, .endQueued "a", .endTurn 0 true, .startQueued "b" "/repo", .startTurn 0 (some "b0"),
        .ended "b" 5000, .endQueued "b", .endTurn 0 true]).any
      (fun w => w.rows.find? "a" = some ⟨"a", "t1", .ready, "/repo", some "a0", true, false, false⟩ &&
        w.rows.find? "b" = some ⟨"b", "t2", .ready, "/repo", some "b0", true, false, true⟩ &&
        w.runs.find? "a" = some ⟨"a", "t1", 0, some 1000⟩ && w.runs.find? "b" = some ⟨"b", "t2", 990, some 5000⟩) =
          true by decide +kernel)
  simp only [Bool.and_eq_true, decide_eq_true_eq] at hw
  obtain ⟨⟨⟨ha, hb⟩, hra⟩, hrb⟩ := hw
  exact ⟨w, hrun, ha, hb, hra, hrb, by decide⟩

end SharedWorld

end Sightr.Checkpoints
