import Sightr.Contracts
import Sightr.Lib.Runs
import Mathlib.Algebra.Order.Ring.Int

/-!
# One final checkpoint for each run

`onStarted`, `startNow`, `onEnded` and `endNow` of `bridge/threads/checkpoints.ts` with the rows that they
record (`applyCheckpointCaptured` of `bridge/threads/store.ts`), for any runs at once. Each task goes from
await to await; what the repo lookup, a snapshot, the diff and the patches answer is part of the action, and
any of them may throw. The turns of a store's queue come in any order, and the clock may say anything.
-/

namespace Sightr.HandledRuns

def START_WINDOW_MS : Int := 30000

def END_WINDOW_MS : Int := 30000

structure Row where
  status : CheckpointStatus
  reason : Option CheckpointAbsentReason := none
  startCommit : Option String := none
  endCommit : Option String := none
  ended : Bool := false
  expired : Bool := false
  deriving DecidableEq

inductive StartPhase
  | waiting | looking | queued
  | snapping (begun : Int)
  deriving DecidableEq

inductive EndPhase
  | waiting
  | looking (startCommit : String)
  | queued (startCommit : String)
  | snapping (startCommit : String) (begun : Int)
  | diffing (startCommit endCommit : String)
  | patching (startCommit endCommit : String)
  deriving DecidableEq

structure EndTask where
  completedAt : Int
  phase : EndPhase
  deriving DecidableEq

def EndPhase.startCommit? : EndPhase → Option String
  | .waiting => none
  | .looking startCommit | .queued startCommit | .snapping startCommit _ | .diffing startCommit _
  | .patching startCommit _ => some startCommit

inductive Evidence
  | startSnapshot (commit : String) (begun : Int)
  | endSnapshot (commit : String) (begun completedAt : Int)
  | diff (startCommit endCommit : String)
  /-- An end is computed; its start was recorded, or not. -/
  | endBegun (recorded : Bool)
  deriving DecidableEq

structure Cell where
  used : Bool := false
  threadId : String := ""
  startedAt : Int := 0
  stored : Bool := false
  gone : Bool := false
  row : Option Row := none
  starting : Option StartPhase := none
  ending : List EndTask := []
  /-- In this lifetime its start was handled, of a thread that was no shell. -/
  handled : Bool := false
  finished : Bool := false
  ends : List Int := []
  log : List Evidence := []
  deriving DecidableEq

namespace Cell

variable (c : Cell)

/-- `checkpoint.captured` of a start: a duplicate, or one of a run that is gone, changes nothing. -/
def captureStart (status : CheckpointStatus) (reason : Option CheckpointAbsentReason) (startCommit : Option String) :
    Cell :=
  if c.stored && c.row.isNone then { c with row := some { status, reason, startCommit } } else c

/-- `checkpoint.captured` of an end: it finishes the row once, and makes it if there was no start. -/
def captureEnd (status : CheckpointStatus) (reason : Option CheckpointAbsentReason)
    (startCommit endCommit : Option String) : Cell :=
  if c.stored then
    match c.row with
    | none => { c with row := some { status, reason, startCommit, endCommit, ended := true } }
    | some row =>
      if row.ended then c
      else { c with row := some { row with
        status, reason, startCommit := row.startCommit.or startCommit, endCommit, ended := true } }
  else c

inductive Action
  | started (threadId : String) (startedAt : Int)
  | startCheck (enabled : Bool) (now : Int)
  | startLooked (found : Bool)
  | startBusy
  | startSlot (now : Int)
  | startSnapped (outcome : Except CheckpointAbsentReason String)
  | startThrew
  | ended (completedAt : Int)
  | endCheck (completedAt : Int) (enabled : Bool)
  | endLooked (task : EndTask) (found : Bool)
  | endBusy (task : EndTask)
  | endSlot (task : EndTask) (now : Int)
  | endSnapped (task : EndTask) (outcome : Except CheckpointAbsentReason String)
  | endDiffed (task : EndTask) (ok : Bool)
  | endPatched (task : EndTask)
  | endThrew (task : EndTask)
  /-- `checkpoint.expired`, of a sweep or of a review read. -/
  | expired
  | pruned
  | deleted

def drop (task : EndTask) : Cell := { c with ending := c.ending.erase task }

def next (task : EndTask) (phase : EndPhase) : Cell :=
  { c with ending := { task with phase } :: c.ending.erase task }

/-- One step of a run; its thread carries a shell, or an agent. -/
def step (shell : Bool) : Action → Option Cell
  | .started threadId startedAt =>
    if c.used then none
    else some { c with used := true, threadId, startedAt, stored := true, starting := some .waiting }
  | .startCheck enabled now =>
    if c.starting = some .waiting then
      if c.gone ∨ shell then some { c with starting := none }
      else
        let c := { c with handled := true }
        if c.row.isSome then some { c with starting := none }
        else if !enabled then some { c.captureStart .absent (some .disabled) none with starting := none }
        else if START_WINDOW_MS < now - c.startedAt then
          some { c.captureStart .absent (some .startMissed) none with starting := none }
        else some { c with starting := some .looking }
    else none
  | .startLooked found =>
    if c.starting = some .looking then
      if found then some { c with starting := some .queued }
      else some { c.captureStart .absent (some .noRepo) none with starting := none }
    else none
  | .startBusy =>
    if c.starting = some .queued then some { c.captureStart .absent (some .timeout) none with starting := none }
    else none
  | .startSlot now =>
    if c.starting = some .queued then
      if START_WINDOW_MS < now - c.startedAt then
        some { c.captureStart .absent (some .startMissed) none with starting := none }
      else some { c with starting := some (.snapping now) }
    else none
  | .startSnapped outcome =>
    match c.starting with
    | some (.snapping begun) =>
      match outcome with
      | .error reason => some { c.captureStart .absent (some reason) none with starting := none }
      | .ok commit =>
        let c := { c with log := .startSnapshot commit begun :: c.log }
        some { c.captureStart .pending none (some commit) with starting := none }
    | _ => none
  -- `onStarted` records what was thrown, unless a record is there.
  | .startThrew =>
    if c.starting.isSome ∧ c.starting ≠ some .waiting then
      some { c.captureStart .absent (some .gitFailed) none with starting := none }
    else none
  | .ended completedAt =>
    if c.stored then some { c with
      ending := ⟨completedAt, .waiting⟩ :: c.ending, finished := true, ends := completedAt :: c.ends }
    else none
  | .endCheck completedAt enabled =>
    let task : EndTask := ⟨completedAt, .waiting⟩
    if task ∈ c.ending ∧ c.starting = none then
      if c.stored = false ∨ c.gone ∨ shell then some (c.drop task)
      else
        let c := { c with log := .endBegun c.row.isSome :: c.log }
        match c.row with
        | none => some ((c.captureEnd .absent (some (if enabled then .startMissed else .disabled)) none
          none).drop task)
        | some row =>
          if row.ended then some (c.drop task)
          else
            match row.status, row.startCommit with
            | .absent, _ => some ((c.captureEnd .absent (some (row.reason.getD .startMissed)) none none).drop task)
            | _, none => some ((c.captureEnd .absent (some (row.reason.getD .startMissed)) none none).drop task)
            | _, some startCommit =>
              if row.expired then some ((c.captureEnd .absent (some .startMissed) none none).drop task)
              else some (c.next task (.looking startCommit))
    else none
  | .endLooked task found =>
    match task.phase with
    | .looking startCommit =>
      if task ∈ c.ending then
        if found then some (c.next task (.queued startCommit))
        else some ((c.captureEnd .absent (some .noRepo) (some startCommit) none).drop task)
      else none
    | _ => none
  | .endBusy task =>
    match task.phase with
    | .queued startCommit =>
      if task ∈ c.ending then some ((c.captureEnd .absent (some .timeout) (some startCommit) none).drop task)
      else none
    | _ => none
  | .endSlot task now =>
    match task.phase with
    | .queued startCommit =>
      if task ∈ c.ending then
        if END_WINDOW_MS < now - task.completedAt then
          some ((c.captureEnd .absent (some .endMissed) (some startCommit) none).drop task)
        else some (c.next task (.snapping startCommit now))
      else none
    | _ => none
  | .endSnapped task outcome =>
    match task.phase with
    | .snapping startCommit begun =>
      if task ∈ c.ending then
        match outcome with
        | .error reason => some ((c.captureEnd .absent (some reason) (some startCommit) none).drop task)
        | .ok commit =>
          let c := { c with log := .endSnapshot commit begun task.completedAt :: c.log }
          some (c.next task (.diffing startCommit commit))
      else none
    | _ => none
  | .endDiffed task ok =>
    match task.phase with
    | .diffing startCommit endCommit =>
      if task ∈ c.ending then
        if ok then
          let c := { c with log := .diff startCommit endCommit :: c.log }
          some (c.next task (.patching startCommit endCommit))
        else some ((c.captureEnd .absent (some .gitFailed) (some startCommit) (some endCommit)).drop task)
      else none
    | _ => none
  | .endPatched task =>
    match task.phase with
    | .patching startCommit endCommit =>
      if task ∈ c.ending then some ((c.captureEnd .ready none (some startCommit) (some endCommit)).drop task)
      else none
    | _ => none
  -- `onEnded` records what was thrown where the row has no end.
  | .endThrew task =>
    if task ∈ c.ending ∧ task.phase ≠ .waiting then
      some (if c.row.isSome then (c.captureEnd .absent (some .gitFailed) none none).drop task else c.drop task)
    else none
  | .expired => some { c with row := c.row.map fun row => { row with expired := true } }
  | .pruned => if c.used then some { c with stored := false, row := none } else none
  | .deleted => if c.used then some { c with stored := false, row := none, gone := true } else none

def restart : Cell := { c with starting := none, ending := [], handled := false, finished := false }

theorem step_erased {shell : Bool} {d : Cell} (h : c.step shell .pruned = some d ∨ c.step shell .deleted = some d) :
    c.used = true ∧ ∃ gone, d = { c with stored := false, row := none, gone } := by
  simp only [step] at h
  split at h
  · next hused =>
    obtain h | h := h <;> exact ⟨hused, _, (Option.some.inj h).symm⟩
  · obtain h | h := h <;> cases h

/-! ### What a run keeps -/

/-- A start snapshot with this commit began in its window. -/
def StartTaken (commit : String) : Prop :=
  ∃ begun, .startSnapshot commit begun ∈ c.log ∧ begun - c.startedAt ≤ START_WINDOW_MS

/-- An end snapshot with this commit began in the window of this end. -/
def EndTaken (commit : String) (completedAt : Int) : Prop :=
  ∃ begun, .endSnapshot commit begun completedAt ∈ c.log ∧ begun - completedAt ≤ END_WINDOW_MS

/-- What a `ready` row of the run rests on: both snapshots, each in its window, and the diff between them. -/
def Proven (row : Row) : Prop :=
  ∃ startCommit endCommit completedAt, row.startCommit = some startCommit ∧ row.endCommit = some endCommit ∧
    completedAt ∈ c.ends ∧ c.StartTaken startCommit ∧ c.EndTaken endCommit completedAt ∧
    .diff startCommit endCommit ∈ c.log

structure RowSound (row : Row) : Prop where
  reason : row.status = .absent → row.reason.isSome = true
  pending : row.status = .pending → row.ended = false
  taken : ∀ commit ∈ row.startCommit, c.StartTaken commit
  ready : row.status = .ready → c.Proven row

def Done (completedAt : Int) : EndPhase → Prop
  | .waiting | .looking _ | .queued _ => True
  | .snapping _ begun => begun - completedAt ≤ END_WINDOW_MS
  | .diffing _ endCommit => c.EndTaken endCommit completedAt
  | .patching startCommit endCommit => c.EndTaken endCommit completedAt ∧ .diff startCommit endCommit ∈ c.log

/-- An end task goes on with the start of the row, which is there as long as the run is. -/
structure TaskSound (task : EndTask) : Prop where
  ended : task.completedAt ∈ c.ends
  row : ∀ commit ∈ task.phase.startCommit?, c.StartTaken commit ∧
    (c.stored = true → ∃ row, c.row = some row ∧ row.startCommit = some commit)
  done : c.Done task.completedAt task.phase

def Final : Prop := ∃ row, c.row = some row ∧ row.ended = true

structure Sound : Prop where
  unused : c.used = false → c = {}
  row : ∀ row ∈ c.row, c.RowSound row
  window : ∀ begun, c.starting = some (.snapping begun) → begun - c.startedAt ≤ START_WINDOW_MS
  tasks : ∀ task ∈ c.ending, c.TaskSound task
  handled : c.handled = true → c.stored = true → c.starting.isSome = true ∨ c.row.isSome = true
  finished : c.finished = true → c.stored = true → c.ending ≠ [] ∨ c.Final ∨ c.starting = none ∧ c.handled = false
  waiting : c.starting = some .waiting → c.handled = false
  gone : c.gone = true → c.stored = false
  /-- No end is computed before a handled start is recorded. -/
  begun : ∀ recorded, .endBegun recorded ∈ c.log → c.starting = none ∧ (c.handled = true → recorded = true)

variable {c}

/-- The run has at least this evidence, from the same start. -/
structure Kept (c d : Cell) : Prop where
  log : c.log ⊆ d.log
  startedAt : d.startedAt = c.startedAt
  ends : c.ends ⊆ d.ends

theorem Kept.of_eq {d : Cell} (hlog : d.log = c.log) (hstartedAt : d.startedAt = c.startedAt) (hends : d.ends =
      c.ends) :
    Kept c d :=
  ⟨hlog ▸ List.Subset.refl _, hstartedAt, hends ▸ List.Subset.refl _⟩

theorem Kept.logged (e : Evidence) : Kept c { c with log := e :: c.log } :=
  ⟨List.subset_cons_self .., rfl, List.Subset.refl _⟩

variable {d : Cell}

variable {commit : String}

theorem StartTaken.kept (h : c.StartTaken commit) (hkept : Kept c d) : d.StartTaken commit := by
  obtain ⟨begun, hlog, hwindow⟩ := h
  exact ⟨begun, hkept.log hlog, hkept.startedAt ▸ hwindow⟩

variable {completedAt : Int}

theorem EndTaken.kept (h : c.EndTaken commit completedAt) (hkept : Kept c d) : d.EndTaken commit completedAt := by
  obtain ⟨begun, hlog, hwindow⟩ := h
  exact ⟨begun, hkept.log hlog, hwindow⟩

variable {row : Row}

theorem Proven.kept (h : c.Proven row) (hkept : Kept c d) : d.Proven row := by
  obtain ⟨startCommit, endCommit, completedAt, hstart, hend, hended, hfirst, hlast, hdiff⟩ := h
  exact ⟨startCommit, endCommit, completedAt, hstart, hend, hkept.ends hended, hfirst.kept hkept, hlast.kept hkept,
    hkept.log hdiff⟩

theorem RowSound.kept (h : c.RowSound row) (hkept : Kept c d) : d.RowSound row := { h with
  taken := fun commit hcommit => (h.taken commit hcommit).kept hkept
  ready := fun hready => (h.ready hready).kept hkept }

theorem Done.kept {phase : EndPhase} (h : c.Done completedAt phase) (hkept : Kept c d) :
    d.Done completedAt phase := by
  cases phase with
  | waiting | looking | queued => trivial
  | snapping => exact h
  | diffing => exact EndTaken.kept h hkept
  | patching => exact ⟨h.1.kept hkept, hkept.log h.2⟩

variable {task : EndTask}

theorem TaskSound.kept (h : c.TaskSound task) (hkept : Kept c d)
    (hrow : d.stored = true → c.stored = true ∧ ∀ old, c.row = some old → ∀ commit, old.startCommit = some commit →
      ∃ row, d.row = some row ∧ row.startCommit = some commit) :
    d.TaskSound task where
  ended := hkept.ends h.ended
  row commit hcommit := by
    obtain ⟨htaken, hold⟩ := h.row commit hcommit
    refine ⟨htaken.kept hkept, fun hstored => ?_⟩
    obtain ⟨hbefore, hkeeps⟩ := hrow hstored
    obtain ⟨old, hfound, hsame⟩ := hold hbefore
    exact hkeeps old hfound commit hsame
  done := h.done.kept hkept

theorem TaskSound.same (h : c.TaskSound task) (hkept : Kept c d) (hstored : d.stored = c.stored)
    (hrow : d.row = c.row) : d.TaskSound task :=
  h.kept hkept fun hthere => ⟨hstored ▸ hthere, fun old hold _ hcommit => ⟨old, hrow ▸ hold, hcommit⟩⟩

theorem Sound.logged (h : c.Sound) (hused : c.used = true) {e : Evidence}
    (hbegun : ∀ recorded, .endBegun recorded = e → c.starting = none ∧ (c.handled = true → recorded = true)) :
    Sound { c with log := e :: c.log } := { h with
  unused := fun hnot => Bool.noConfusion (hused.symm.trans hnot)
  row := fun row hrow => (h.row row hrow).kept (.logged e)
  tasks := fun task htask => (h.tasks task htask).same (.logged e) rfl rfl
  begun := fun recorded hlog => by
    obtain hnew | hold := List.mem_cons.mp hlog
    · exact hbegun recorded hnew
    · exact h.begun recorded hold }

/-! ### A row is written -/

theorem Sound.setRow (h : c.Sound) (hstored : c.stored = true) (hrow : c.RowSound row)
    (hcommit : ∀ old, c.row = some old → ∀ commit, old.startCommit = some commit → row.startCommit = some commit)
    (hfinal : c.Final → row.ended = true) : Sound { c with row := some row } := { h with
  unused := fun hnot => by
    have hempty : c.stored = ({} : Cell).stored := congrArg stored (h.unused hnot)
    exact Bool.noConfusion (hstored.symm.trans hempty)
  row := fun other hother => by
    cases hother
    exact hrow.kept (.of_eq rfl rfl rfl)
  tasks := fun task htask => (h.tasks task htask).kept (.of_eq rfl rfl rfl) fun hstored =>
    ⟨hstored, fun old hold commit hsome => ⟨row, rfl, hcommit old hold commit hsome⟩⟩
  handled := fun _ _ => .inr rfl
  finished := fun hfinished hstored => by
    obtain htasks | hdone | hnone := h.finished hfinished hstored
    · exact .inl htasks
    · exact .inr (.inl ⟨row, rfl, hfinal hdone⟩)
    · exact .inr (.inr hnone) }

variable {status : CheckpointStatus} {reason : Option CheckpointAbsentReason} {startCommit : Option String}

theorem Sound.captureStart (h : c.Sound) (hreason : status = .absent → reason.isSome = true)
    (hready : status ≠ .ready) (htaken : ∀ commit ∈ startCommit, c.StartTaken commit) :
    (c.captureStart status reason startCommit).Sound := by
  unfold Cell.captureStart
  split_ifs with hnew
  · obtain ⟨hstored, hnone⟩ := Bool.and_eq_true_iff.mp hnew
    have habsent : c.row = none := Option.isNone_iff_eq_none.mp hnone
    refine h.setRow hstored ⟨hreason, fun _ => rfl, htaken, fun hnow => absurd hnow hready⟩
      (fun old hold => ?_) fun hfinal => ?_
    · cases habsent.symm.trans hold
    · obtain ⟨old, hold, -⟩ := hfinal
      cases habsent.symm.trans hold
  · exact h

variable {endCommit : Option String}

theorem Sound.captureEnd (h : c.Sound) (hreason : status = .absent → reason.isSome = true)
    (hpending : status ≠ .pending) (htaken : ∀ commit ∈ startCommit, c.StartTaken commit)
    (hready : status = .ready → c.stored = true → ∃ row, c.row = some row ∧ row.startCommit = startCommit ∧
      ∀ row : Row, row.startCommit = startCommit → row.endCommit = endCommit → c.Proven row) :
    (c.captureEnd status reason startCommit endCommit).Sound := by
  unfold Cell.captureEnd
  split_ifs with hstored
  · split
    · next hnone =>
      refine h.setRow hstored ⟨hreason, fun hnow => absurd hnow hpending, htaken, fun hnow => ?_⟩
        (fun old hold => ?_) fun _ => rfl
      · obtain ⟨row, hrow, -⟩ := hready hnow hstored
        cases hnone.symm.trans hrow
      · cases hnone.symm.trans hold
    · next row hrow =>
      split_ifs with hended
      · exact h
      · refine h.setRow hstored ⟨hreason, fun hnow => absurd hnow hpending, fun commit hcommit => ?_, fun hnow => ?_⟩
          (fun old hold commit hcommit => ?_) fun _ => rfl
        · obtain hold | ⟨-, hnew⟩ := Option.or_eq_some_iff.mp hcommit
          · exact (h.row row hrow).taken commit hold
          · exact htaken commit hnew
        · obtain ⟨other, hother, hsame, hproven⟩ := hready hnow hstored
          obtain rfl : row = other := Option.some.inj (hrow.symm.trans hother)
          refine hproven _ ?_ rfl
          change row.startCommit.or startCommit = startCommit
          rw [hsame, Option.or_self]
        · obtain rfl : row = old := Option.some.inj (hrow.symm.trans hold)
          exact Option.or_eq_some_iff.mpr (.inl hcommit)
  · exact h

@[simp] theorem captureStart_starting (status : CheckpointStatus) (reason : Option CheckpointAbsentReason)
    (startCommit : Option String) : (c.captureStart status reason startCommit).starting = c.starting := by
  unfold Cell.captureStart
  split <;> rfl

theorem isSome_row_captureStart (status : CheckpointStatus) (reason : Option CheckpointAbsentReason)
    (startCommit : Option String) (hstored : (c.captureStart status reason startCommit).stored = true) :
    (c.captureStart status reason startCommit).row.isSome = true := by
  unfold Cell.captureStart at hstored ⊢
  split_ifs with hnew
  · rfl
  · rw [if_neg hnew] at hstored
    simpa [hstored, Option.isNone_iff_eq_none, Option.isSome_iff_ne_none] using hnew

theorem final_captureEnd (status : CheckpointStatus) (reason : Option CheckpointAbsentReason)
    (startCommit endCommit : Option String)
    (hstored : (c.captureEnd status reason startCommit endCommit).stored = true) :
    (c.captureEnd status reason startCommit endCommit).Final := by
  unfold Cell.captureEnd at hstored ⊢
  split_ifs with hthere
  · split
    · exact ⟨_, rfl, rfl⟩
    · next row hrow =>
      split_ifs with hended
      · exact ⟨row, hrow, hended⟩
      · exact ⟨_, rfl, rfl⟩
  · rw [if_neg hthere] at hstored
    exact absurd hstored hthere

/-! ### A task goes on -/

section

variable (h : c.Sound)
include h

section

variable (hstarting : c.starting.isSome = true)
include hstarting

theorem Sound.stopStart
    (hrow : c.handled = true → c.stored = true → c.row.isSome = true) : Sound { c with starting := none } where
  unused hnot := by
    have hempty : c.starting = ({} : Cell).starting := congrArg starting (h.unused hnot)
    rw [hempty] at hstarting
    cases hstarting
  row row hrow := (h.row row hrow).kept (.of_eq rfl rfl rfl)
  window begun hbegun := by cases hbegun
  tasks task htask := (h.tasks task htask).same (.of_eq rfl rfl rfl) rfl rfl
  handled hhandled hstored := .inr (hrow hhandled hstored)
  finished hfinished hstored := by
    obtain htasks | hdone | ⟨hnone, -⟩ := h.finished hfinished hstored
    · exact .inl htasks
    · exact .inr (.inl hdone)
    · rw [hnone] at hstarting
      cases hstarting
  waiting hwaiting := by cases hwaiting
  gone := h.gone
  begun recorded hlog := ⟨rfl, (h.begun recorded hlog).2⟩

theorem Sound.goStart {phase : StartPhase} (hphase : phase ≠ .waiting)
    (hwindow : ∀ begun, phase = .snapping begun → begun - c.startedAt ≤ START_WINDOW_MS) :
    Sound { c with starting := some phase } where
  unused hnot := by
    have hempty : c.starting = ({} : Cell).starting := congrArg starting (h.unused hnot)
    rw [hempty] at hstarting
    cases hstarting
  row row hrow := (h.row row hrow).kept (.of_eq rfl rfl rfl)
  window begun hbegun := hwindow begun (Option.some.inj hbegun)
  tasks task htask := (h.tasks task htask).same (.of_eq rfl rfl rfl) rfl rfl
  handled _ _ := .inl rfl
  finished hfinished hstored := by
    obtain htasks | hdone | ⟨hnone, -⟩ := h.finished hfinished hstored
    · exact .inl htasks
    · exact .inr (.inl hdone)
    · rw [hnone] at hstarting
      cases hstarting
  waiting hwaiting := absurd (Option.some.inj hwaiting) hphase
  gone := h.gone
  begun recorded hlog := by
    rw [(h.begun recorded hlog).1] at hstarting
    cases hstarting

theorem Sound.startAbsent (reason : CheckpointAbsentReason) :
    Sound { c.captureStart .absent (some reason) none with starting := none } :=
  (h.captureStart (fun _ => rfl) (by decide) (fun _ hnone => by cases hnone)).stopStart
    (by rwa [captureStart_starting]) fun _ hstored => isSome_row_captureStart _ _ _ hstored

end

theorem Sound.handle (hstarting : c.starting = some .waiting) :
    Sound { c with handled := true, starting := some .looking } where
  unused hnot := by
    have hempty : c.starting = ({} : Cell).starting := congrArg starting (h.unused hnot)
    cases hstarting.symm.trans hempty
  row row hrow := (h.row row hrow).kept (.of_eq rfl rfl rfl)
  window begun hbegun := by cases hbegun
  tasks task htask := (h.tasks task htask).same (.of_eq rfl rfl rfl) rfl rfl
  handled _ _ := .inl rfl
  finished hfinished hstored := by
    obtain htasks | hdone | ⟨hnone, -⟩ := h.finished hfinished hstored
    · exact .inl htasks
    · exact .inr (.inl hdone)
    · cases hstarting.symm.trans hnone
  waiting hwaiting := by cases hwaiting
  gone := h.gone
  begun recorded hlog := by cases hstarting.symm.trans (h.begun recorded hlog).1

theorem Sound.drop (task : EndTask)
    (hfinal : c.finished = true → c.stored = true → c.Final ∨ c.starting = none ∧ c.handled = false) :
    (c.drop task).Sound := { h with
  unused := fun hnot => by
    have hempty : c = {} := h.unused hnot
    rw [hempty]
    rfl
  row := fun row hrow => (h.row row hrow).kept (.of_eq rfl rfl rfl)
  tasks := fun other hother => (h.tasks other (List.mem_of_mem_erase hother)).same (.of_eq rfl rfl rfl) rfl rfl
  finished := fun hfinished hstored => .inr (hfinal hfinished hstored) }

end

theorem Sound.recorded (h : Sound (c.captureEnd status reason startCommit endCommit)) (task : EndTask) :
    ((c.captureEnd status reason startCommit endCommit).drop task).Sound :=
  h.drop task fun _ hstored => .inl (final_captureEnd _ _ _ _ hstored)

theorem Sound.endAbsent (h : c.Sound) (reason : CheckpointAbsentReason) {startCommit : Option String}
    (htaken : ∀ commit ∈ startCommit, c.StartTaken commit) (endCommit : Option String) (task : EndTask) :
    ((c.captureEnd .absent (some reason) startCommit endCommit).drop task).Sound :=
  (h.captureEnd (fun _ => rfl) (by decide) htaken fun hready => by cases hready).recorded task

theorem Sound.next (h : c.Sound) {task : EndTask} (hmem : task ∈ c.ending) {phase : EndPhase}
    (hphase : c.TaskSound { task with phase }) : (c.next task phase).Sound := { h with
  unused := fun hnot => by
    have hempty : c.ending = ({} : Cell).ending := congrArg ending (h.unused hnot)
    rw [hempty] at hmem
    cases hmem
  row := fun row hrow => (h.row row hrow).kept (.of_eq rfl rfl rfl)
  tasks := fun other hother => by
    have hsound : c.TaskSound other := by
      obtain rfl | hold := List.mem_cons.mp hother
      · exact hphase
      · exact h.tasks other (List.mem_of_mem_erase hold)
    exact hsound.same (.of_eq rfl rfl rfl) rfl rfl
  finished := fun _ _ => .inl (List.cons_ne_nil _ _) }

/-! ### Steps -/

theorem captureStart_goes (phase : Option StartPhase) (status : CheckpointStatus)
    (reason : Option CheckpointAbsentReason) (startCommit : Option String) :
    { c with starting := phase }.captureStart status reason startCommit =
      { c.captureStart status reason startCommit with starting := phase } := by
  unfold Cell.captureStart
  split_ifs <;> rfl

theorem Sound.started (h : c.Sound) (hnew : c.used = false) (threadId : String) (startedAt : Int) :
    Sound { c with used := true, threadId, startedAt, stored := true, starting := some .waiting } := by
  rw [h.unused hnew]
  exact {
    unused := fun hnot => by cases hnot
    row := fun row hrow => by cases hrow
    window := fun begun hbegun => by cases hbegun
    tasks := fun task htask => by cases htask
    handled := fun hhandled => by cases hhandled
    finished := fun hfinished => by cases hfinished
    waiting := fun _ => rfl
    gone := fun hgone => by cases hgone
    begun := fun recorded hlog => by cases hlog }

variable {shell enabled : Bool} {now : Int}

theorem Sound.startCheck (h : c.Sound) (hstep : c.step shell (.startCheck enabled now) = some d) : d.Sound := by
  simp only [Cell.step] at hstep
  split at hstep
  · next hstarting =>
    have hthere : c.starting.isSome = true := by rw [hstarting]; rfl
    have habsent (reason : CheckpointAbsentReason) :
        Sound { { c with handled := true }.captureStart .absent (some reason) none with starting := none } := by
      have hgone := (h.handle hstarting).startAbsent rfl reason
      have hsame := captureStart_goes (c := { c with handled := true }) (some .looking) .absent (some reason) none
      rwa [hsame] at hgone
    split at hstep
    · cases hstep
      exact h.stopStart hthere fun hhandled => by cases (h.waiting hstarting).symm.trans hhandled
    · split at hstep
      · next hrow =>
        cases hstep
        exact (h.handle hstarting).stopStart rfl fun _ _ => hrow
      · split at hstep
        · cases hstep
          exact habsent _
        · split at hstep
          · cases hstep
            exact habsent _
          · cases hstep
            exact h.handle hstarting
  · cases hstep

theorem Sound.startSlot (h : c.Sound) (hstep : c.step shell (.startSlot now) = some d) : d.Sound := by
  simp only [Cell.step] at hstep
  split at hstep
  · next hstarting =>
    have hthere : c.starting.isSome = true := by rw [hstarting]; rfl
    split at hstep
    · cases hstep
      exact h.startAbsent hthere _
    · next hlate =>
      cases hstep
      refine h.goStart hthere (by simp) fun begun hbegun => ?_
      obtain rfl := StartPhase.snapping.inj hbegun
      exact not_lt.mp hlate
  · cases hstep

theorem Sound.used_of_starting (h : c.Sound) (hstarting : c.starting ≠ none) : c.used = true := by
  by_contra hnot
  exact hstarting (congrArg Cell.starting (h.unused (Bool.eq_false_of_not_eq_true hnot)))

theorem Sound.used_of_mem (h : c.Sound) (hmem : task ∈ c.ending) : c.used = true := by
  by_contra hnot
  have hempty : c.ending = [] := congrArg Cell.ending (h.unused (Bool.eq_false_of_not_eq_true hnot))
  rw [hempty] at hmem
  cases hmem

variable {outcome : Except CheckpointAbsentReason String}

section

variable (h : c.Sound)
include h

theorem Sound.startSnapped (hstep : c.step shell (.startSnapped outcome) = some d) : d.Sound := by
  simp only [Cell.step] at hstep
  split at hstep
  · next begun hstarting =>
    have hthere : c.starting.isSome = true := by rw [hstarting]; rfl
    cases outcome with
    | error reason =>
      cases hstep
      exact h.startAbsent hthere reason
    | ok commit =>
      cases hstep
      have hused : c.used = true := h.used_of_starting (by simp [hstarting])
      have hlogged := h.logged hused (e := .startSnapshot commit begun) fun _ hno => by cases hno
      have htaken : StartTaken { c with log := .startSnapshot commit begun :: c.log } commit :=
        ⟨begun, List.mem_cons_self .., h.window begun hstarting⟩
      have hcaptured : Sound (Cell.captureStart { c with log := .startSnapshot commit begun :: c.log } .pending none
          (some commit)) :=
        hlogged.captureStart (fun hno => by cases hno) (by decide) fun other hother =>
          Option.some.inj hother ▸ htaken
      exact hcaptured.stopStart (by rwa [captureStart_starting]) fun _ hstored =>
        isSome_row_captureStart _ _ _ hstored
  · cases hstep

theorem Sound.endCheck (hkeeps : c.handled = true → shell = false)
    (hstep : c.step shell (.endCheck completedAt enabled) = some d) :
    d.Sound := by
  simp only [Cell.step] at hstep
  split at hstep
  · next hturn =>
    obtain ⟨hmem, hstarting⟩ := hturn
    split at hstep
    · next haway =>
      cases hstep
      refine h.drop _ fun _ hstored => ?_
      obtain hno | hgone | hshell := haway
      · cases hno.symm.trans hstored
      · cases (h.gone hgone).symm.trans hstored
      · refine .inr ⟨hstarting, Bool.eq_false_of_not_eq_true fun hhandled => ?_⟩
        cases (hkeeps hhandled).symm.trans hshell
    · next hhere =>
      have hstored : c.stored = true := Bool.eq_true_of_not_eq_false fun hno => hhere (.inl hno)
      have hlogged := h.logged (h.used_of_mem hmem) (e := .endBegun c.row.isSome) fun recorded hsame => by
        obtain rfl := Evidence.endBegun.inj hsame
        refine ⟨hstarting, fun hhandled => ?_⟩
        obtain hthere | hrow := h.handled hhandled hstored
        · rw [hstarting] at hthere
          cases hthere
        · exact hrow
      have habsent (reason : CheckpointAbsentReason) :=
        @Sound.endAbsent _ hlogged reason none (fun _ hno => by cases hno) none ⟨completedAt, .waiting⟩
      split at hstep
      · cases hstep
        exact habsent _
      · next row hrow =>
        split at hstep
        · next hended =>
          cases hstep
          exact hlogged.drop _ fun _ _ => .inl ⟨row, hrow, hended⟩
        · split at hstep
          · cases hstep
            exact habsent _
          · cases hstep
            exact habsent _
          · next startCommit hcommit _ =>
            split at hstep
            · cases hstep
              exact habsent _
            · cases hstep
              have htask := hlogged.tasks _ hmem
              refine hlogged.next hmem ⟨htask.ended, fun commit hsame => ?_, trivial⟩
              cases hsame
              exact ⟨(hlogged.row row hrow).taken _ hcommit, fun _ => ⟨row, hrow, hcommit⟩⟩
  · cases hstep

theorem Sound.endSnapped (hstep : c.step shell (.endSnapped task outcome) = some d) : d.Sound := by
  simp only [Cell.step] at hstep
  split at hstep
  · next startCommit begun hphase =>
    split at hstep
    · next hmem =>
      obtain ⟨hended, hrow, hdone⟩ := h.tasks task hmem
      rw [hphase] at hrow hdone
      have htaken : ∀ commit ∈ some startCommit, c.StartTaken commit := fun commit hcommit => (hrow commit hcommit).1
      cases outcome with
      | error reason =>
        cases hstep
        exact h.endAbsent reason htaken none task
      | ok commit =>
        cases hstep
        have hlogged := h.logged (h.used_of_mem hmem) (e := .endSnapshot commit begun task.completedAt) fun _
          hno => by
          cases hno
        exact hlogged.next hmem ⟨hended, fun other hother => ⟨(hrow other hother).1.kept (.logged _),
      (hrow other hother).2⟩, begun, List.mem_cons_self .., hdone⟩
    · cases hstep
  · cases hstep

theorem Sound.endSlot (hstep : c.step shell (.endSlot task now) = some d) : d.Sound := by
  simp only [Cell.step] at hstep
  split at hstep
  · next startCommit hphase =>
    split at hstep
    · next hmem =>
      obtain ⟨hended, hrow, -⟩ := h.tasks task hmem
      rw [hphase] at hrow
      split at hstep
      · cases hstep
        exact h.endAbsent _ (fun commit hcommit => (hrow commit hcommit).1) none task
      · next hlate =>
        cases hstep
        exact h.next hmem ⟨hended, hrow, not_lt.mp hlate⟩
    · cases hstep
  · cases hstep

theorem Sound.endDiffed {ok : Bool} (hstep : c.step shell (.endDiffed task ok) = some d) : d.Sound := by
  simp only [Cell.step] at hstep
  split at hstep
  · next startCommit endCommit hphase =>
    split at hstep
    · next hmem =>
      obtain ⟨hended, hrow, hdone⟩ := h.tasks task hmem
      rw [hphase] at hrow hdone
      split at hstep
      · cases hstep
        have hlogged := h.logged (h.used_of_mem hmem) (e := .diff startCommit endCommit) fun _ hno => by cases hno
        exact hlogged.next hmem ⟨hended, fun other hother => ⟨(hrow other hother).1.kept (.logged _),
      (hrow other hother).2⟩, EndTaken.kept hdone (.logged _), List.mem_cons_self ..⟩
      · cases hstep
        exact h.endAbsent _ (fun commit hcommit => (hrow commit hcommit).1) _ task
    · cases hstep
  · cases hstep

theorem Sound.endPatched (hstep : c.step shell (.endPatched task) = some d) : d.Sound := by
  simp only [Cell.step] at hstep
  split at hstep
  · next startCommit endCommit hphase =>
    split at hstep
    · next hmem =>
      cases hstep
      obtain ⟨hended, hrow, hdone⟩ := h.tasks task hmem
      rw [hphase] at hrow hdone
      obtain ⟨htaken, hthere⟩ := hrow startCommit rfl
      refine Sound.recorded (h.captureEnd (fun hno => by cases hno) (by decide)
        (fun commit hcommit => (hrow commit hcommit).1) fun _ hstored => ?_) task
      obtain ⟨row, hfound, hcommit⟩ := hthere hstored
      exact ⟨row, hfound, hcommit, fun final hstart hend =>
        ⟨startCommit, endCommit, task.completedAt, hstart, hend, hended, htaken, hdone.1, hdone.2⟩⟩
    · cases hstep
  · cases hstep

theorem Sound.endThrew (hstep : c.step shell (.endThrew task) = some d) : d.Sound := by
  simp only [Cell.step] at hstep
  split at hstep
  · next hturn =>
    obtain ⟨hmem, hphase⟩ := hturn
    split at hstep
    · cases hstep
      exact h.endAbsent _ (fun _ hno => by cases hno) none task
    · next hnone =>
      cases hstep
      refine h.drop task fun _ hstored => absurd ?_ hnone
      obtain ⟨-, hrow, -⟩ := h.tasks task hmem
      cases hcommit : task.phase.startCommit? with
      | none => cases hp : task.phase <;> simp [hp, EndPhase.startCommit?] at hphase hcommit
      | some commit =>
        obtain ⟨row, hfound, -⟩ := (hrow commit hcommit).2 hstored
        exact Option.isSome_iff_exists.mpr ⟨row, hfound⟩
  · cases hstep

theorem Sound.ended (hused : c.used = true) (completedAt : Int) : Sound { c with
    ending := ⟨completedAt, .waiting⟩ :: c.ending, finished := true, ends := completedAt :: c.ends } := { h with
  unused := fun hnot => Bool.noConfusion (hused.symm.trans hnot)
  row := fun row hrow => (h.row row hrow).kept ⟨List.Subset.refl _, rfl, List.subset_cons_self ..⟩
  tasks := fun task htask => by
    obtain rfl | hold := List.mem_cons.mp htask
    · exact ⟨List.mem_cons_self .., (fun commit hno => by cases hno), trivial⟩
    · exact (h.tasks task hold).same ⟨List.Subset.refl _, rfl, List.subset_cons_self ..⟩ rfl rfl
  finished := fun _ _ => .inl (List.cons_ne_nil _ _) }

theorem Sound.expired : Sound { c with row := c.row.map fun row => { row with expired := true } } := { h with
  unused := fun hnot => by
    have hempty : c = {} := h.unused hnot
    rw [hempty]
    rfl
  row := fun row hrow => by
    obtain ⟨old, hold, rfl⟩ := Option.map_eq_some_iff.mp hrow
    obtain ⟨hreason, hpending, htaken, hready⟩ := (h.row old hold).kept (d := { c with
      row := c.row.map fun row => { row with expired := true } }) (.of_eq rfl rfl rfl)
    exact ⟨hreason, hpending, htaken, hready⟩
  tasks := fun task htask => (h.tasks task htask).kept (.of_eq rfl rfl rfl) fun hstored =>
    ⟨hstored, fun old hold _ hcommit => ⟨_, Option.map_eq_some_iff.mpr ⟨old, hold, rfl⟩, hcommit⟩⟩
  handled := fun hhandled hstored => (h.handled hhandled hstored).imp_right fun hrow => by rwa [Option.isSome_map]
  finished := fun hfinished hstored => by
    obtain htasks | ⟨row, hrow, hended⟩ | hnone := h.finished hfinished hstored
    · exact .inl htasks
    · exact .inr (.inl ⟨_, Option.map_eq_some_iff.mpr ⟨row, hrow, rfl⟩, hended⟩)
    · exact .inr (.inr hnone) }

theorem Sound.pruned (hused : c.used = true) (gone : Bool) :
    Sound { c with stored := false, row := none, gone } := { h with
  unused := fun hnot => Bool.noConfusion (hused.symm.trans hnot)
  row := fun row hrow => by cases hrow
  tasks := fun task htask => (h.tasks task htask).kept (.of_eq rfl rfl rfl) fun hstored => by cases hstored
  handled := fun _ hstored => by cases hstored
  finished := fun _ hstored => by cases hstored
  gone := fun _ => rfl }

theorem Sound.restart : c.restart.Sound where
  unused hnot := by
    have hempty : c = {} := h.unused hnot
    rw [hempty]
    rfl
  row row hrow := (h.row row hrow).kept (.of_eq rfl rfl rfl)
  window begun hbegun := by cases hbegun
  tasks task htask := by cases htask
  handled hhandled := by cases hhandled
  finished hfinished := by cases hfinished
  waiting hwaiting := by cases hwaiting
  gone := h.gone
  begun recorded hlog := ⟨rfl, fun hhandled => by cases hhandled⟩

theorem Sound.step {action : Action}
    (hkeeps : ∀ completedAt enabled, action = .endCheck completedAt enabled → c.handled = true → shell = false)
    (hstep : c.step shell action = some d) : d.Sound := by
  cases action with
  | started threadId startedAt =>
    simp only [Cell.step] at hstep
    split at hstep
    · cases hstep
    · next hnew =>
      cases hstep
      exact h.started (Bool.eq_false_of_not_eq_true hnew) threadId startedAt
  | startCheck enabled now => exact h.startCheck hstep
  | startLooked found =>
    simp only [Cell.step] at hstep
    split at hstep
    · next hstarting =>
      have hthere : c.starting.isSome = true := by rw [hstarting]; rfl
      split at hstep
      · cases hstep
        exact h.goStart hthere (by decide) fun _ hno => by cases hno
      · cases hstep
        exact h.startAbsent hthere _
    · cases hstep
  | startBusy =>
    simp only [Cell.step] at hstep
    split at hstep
    · next hstarting =>
      cases hstep
      exact h.startAbsent (by rw [hstarting]; rfl) _
    · cases hstep
  | startSlot now => exact h.startSlot hstep
  | startSnapped outcome => exact h.startSnapped hstep
  | startThrew =>
    simp only [Cell.step] at hstep
    split at hstep
    · next hturn =>
      cases hstep
      exact h.startAbsent hturn.1 _
    · cases hstep
  | ended completedAt =>
    simp only [Cell.step] at hstep
    split at hstep
    · next hstored =>
      cases hstep
      refine h.ended ?_ completedAt
      by_contra hnot
      have hempty : c.stored = false := congrArg Cell.stored (h.unused (Bool.eq_false_of_not_eq_true hnot))
      cases hempty.symm.trans hstored
    · cases hstep
  | endCheck completedAt enabled => exact h.endCheck (hkeeps completedAt enabled rfl) hstep
  | endLooked task found =>
    simp only [Cell.step] at hstep
    split at hstep
    · next startCommit hphase =>
      split at hstep
      · next hmem =>
        obtain ⟨hended, hrow, -⟩ := h.tasks task hmem
        rw [hphase] at hrow
        split at hstep
        · cases hstep
          exact h.next hmem ⟨hended, hrow, trivial⟩
        · cases hstep
          exact h.endAbsent _ (fun commit hcommit => (hrow commit hcommit).1) none task
      · cases hstep
    · cases hstep
  | endBusy task =>
    simp only [Cell.step] at hstep
    split at hstep
    · next startCommit hphase =>
      split at hstep
      · next hmem =>
        cases hstep
        obtain ⟨-, hrow, -⟩ := h.tasks task hmem
        rw [hphase] at hrow
        exact h.endAbsent _ (fun commit hcommit => (hrow commit hcommit).1) none task
      · cases hstep
    · cases hstep
  | endSlot task now => exact h.endSlot hstep
  | endSnapped task outcome => exact h.endSnapped hstep
  | endDiffed task ok => exact h.endDiffed hstep
  | endPatched task => exact h.endPatched hstep
  | endThrew task => exact h.endThrew hstep
  | expired =>
    cases hstep
    exact h.expired
  | pruned =>
    obtain ⟨hused, gone, rfl⟩ := step_erased c (.inl hstep)
    exact h.pruned hused gone
  | deleted =>
    obtain ⟨hused, gone, rfl⟩ := step_erased c (.inr hstep)
    exact h.pruned hused gone

end

end Cell

structure World where
  cells : String → Cell
  shells : String → Bool

namespace World

def start : World := ⟨fun _ => {}, fun _ => false⟩

variable (w : World)

inductive Action
  | run (runId : String) (action : Cell.Action)
  | harness (threadId : String) (shell : Bool)
  | restart

def shell (runId : String) : Bool := w.shells (w.cells runId).threadId

def step : Action → Option World
  | .run runId action =>
    ((w.cells runId).step (w.shell runId) action).map fun c => { w with cells := Function.update w.cells runId c }
  | .harness threadId shell => some { w with shells := Function.update w.shells threadId shell }
  | .restart => some { w with cells := fun id => (w.cells id).restart }

/-- An end of this run, whose start was handled, does not find a shell. -/
def keepsHarness (runId : String) : Action → Bool
  | .run id (.endCheck _ _) => !(id = runId && (w.cells id).handled && w.shell id)
  | _ => true

variable {w} {next : World}

theorem sound_step {runId : String} (h : (w.cells runId).Sound) {action : Action}
    (hkeeps : w.keepsHarness runId action = true) (hstep : w.step action = some next) : (next.cells runId).Sound := by
  cases action with
  | run id action =>
    obtain ⟨c, hc, rfl⟩ := Option.map_eq_some_iff.mp hstep
    by_cases hsame : runId = id
    · subst hsame
      have hnew : c.Sound := by
        refine h.step (fun completedAt enabled hsame hhandled => ?_) hc
        subst hsame
        simpa [keepsHarness, hhandled] using hkeeps
      simpa using hnew
    · simpa [Function.update_of_ne hsame] using h
  | harness threadId shell =>
    cases hstep
    exact h
  | restart =>
    cases hstep
    exact h.restart

end World

end Sightr.HandledRuns
