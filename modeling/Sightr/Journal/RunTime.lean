import Mathlib.Algebra.Order.Ring.Int
import Sightr.Contracts

/-!
# Which run an item belongs to

`runForTime` of `bridge/threads/journal-ingest.ts` looks for the newest run that starts at most `USER_MESSAGE_LEAD_MS`
after the item, so a run that starts just behind an item takes it from the run in whose time it was written.
-/

namespace Sightr

/-- A user message written up to this long before a run's start opens that run. -/
def USER_MESSAGE_LEAD_MS : Int := 5000

/-- An item written this long after its run ended still belongs to it. -/
def RUN_END_SLACK_MS : Int := 2000

namespace JournalIngest

/-- The run an item written at `ts` belongs to; `runs` are oldest first. -/
def runForTime (ts : Int) (runs : List Run) : Option Run :=
  (runs.reverse.find? fun run => run.startedAt - USER_MESSAGE_LEAD_MS ≤ ts).filter fun run =>
    run.completedAt.all fun completedAt => ts ≤ completedAt + RUN_END_SLACK_MS

end JournalIngest

open JournalIngest

namespace Run

def Contains (run : Run) (ts : Int) : Prop := run.startedAt ≤ ts ∧ ∀ completedAt ∈ run.completedAt, ts ≤ completedAt

/-- The run's time, with the lead of a user message and the slack of the clocks. -/
def Window (run : Run) (ts : Int) : Prop :=
  run.startedAt - USER_MESSAGE_LEAD_MS ≤ ts ∧ ∀ completedAt ∈ run.completedAt, ts ≤ completedAt + RUN_END_SLACK_MS

/-- The runs of a thread, oldest first: each ends before the next starts, and only the last may be open. -/
structure InTurn (runs : List Run) : Prop where
  forward : ∀ run ∈ runs, ∀ completedAt ∈ run.completedAt, run.startedAt ≤ completedAt
  apart : runs.Pairwise fun a b => ∃ completedAt ∈ a.completedAt, completedAt ≤ b.startedAt

/-- An item inside a run's time belongs to a run whose time it is inside, and one that belongs to no run is in no
run's window. -/
def Attributed (runs : List Run) (ts : Int) : Prop :=
  ((∃ run ∈ runs, run.Contains ts) → ∃ run ∈ runForTime ts runs, run ∈ runs ∧ run.Contains ts) ∧
    (runForTime ts runs = none → ∀ run ∈ runs, ¬run.Window ts)

variable {runs : List Run} {run next : Run} {ts : Int}

theorem runForTime_cases (runs : List Run) (ts : Int) :
    (runForTime ts runs = none ∧ ∀ run ∈ runs, ts < run.startedAt - USER_MESSAGE_LEAD_MS) ∨
      ∃ before run after, runs = before ++ run :: after ∧ run.startedAt - USER_MESSAGE_LEAD_MS ≤ ts ∧
        (∀ later ∈ after, ts < later.startedAt - USER_MESSAGE_LEAD_MS) ∧
        runForTime ts runs = (some run).filter fun run => run.completedAt.all fun completedAt =>
            ts ≤ completedAt + RUN_END_SLACK_MS := by
  unfold runForTime
  cases hfind : runs.reverse.find? fun run => run.startedAt - USER_MESSAGE_LEAD_MS ≤ ts with
  | none =>
    refine .inl ⟨rfl, fun run hrun => ?_⟩
    have hlate := List.find?_eq_none.mp hfind run (List.mem_reverse.mpr hrun)
    exact not_le.mp fun hle => hlate (decide_eq_true hle)
  | some run =>
    obtain ⟨hearly, after, before, hruns, hlate⟩ := List.find?_eq_some_iff_append.mp hfind
    refine .inr ⟨before.reverse, run, after.reverse, ?_, of_decide_eq_true hearly, fun later hlater => ?_, rfl⟩
    · have hrev := congrArg List.reverse hruns
      simpa using hrev
    · have hnever := hlate later (List.mem_reverse.mp hlater)
      exact not_le.mp fun hle => by simp [hle] at hnever

theorem InTurn.le_of_contains {before after : List Run} (h : InTurn (before ++ run :: after)) {earlier : Run}
    (hearlier : earlier ∈ before) (hcontains : earlier.Contains ts) : ts ≤ run.startedAt := by
  have hpair := (List.pairwise_append.mp h.apart).2.2 earlier hearlier run List.mem_cons_self
  obtain ⟨completedAt, hcompleted, hle⟩ := hpair
  exact (hcontains.2 completedAt hcompleted).trans hle

theorem InTurn.contains_start (h : InTurn runs) (hrun : run ∈ runs) : run.Contains run.startedAt :=
  ⟨le_rfl, h.forward run hrun⟩

theorem not_window (h : InTurn runs) (hnone : runForTime ts runs = none) : ∀ run ∈ runs, ¬run.Window ts := by
  intro run hrun hwindow
  obtain ⟨-, hlate⟩ | ⟨before, last, after, rfl, -, hlate, hfound⟩ := runForTime_cases runs ts
  · exact absurd hwindow.1 (not_le.mpr (hlate run hrun))
  · obtain ⟨completedAt, hcompleted, hpast⟩ : ∃ completedAt, last.completedAt = some completedAt ∧
        completedAt + RUN_END_SLACK_MS < ts := by
      rw [hnone] at hfound
      simpa [Option.filter_some, Option.all_eq_false] using hfound.symm
    have hlast : last ∈ before ++ last :: after := List.mem_append_right _ List.mem_cons_self
    rcases List.mem_append.mp hrun with hbefore | hrun
    · obtain ⟨ended, hended, hle⟩ :=
        (List.pairwise_append.mp h.apart).2.2 run hbefore last List.mem_cons_self
      have hin := hwindow.2 ended hended
      have hforward := h.forward last hlast completedAt hcompleted
      omega
    · rcases List.mem_cons.mp hrun with rfl | hafter
      · exact absurd (hwindow.2 completedAt hcompleted) (not_le.mpr hpast)
      · exact absurd hwindow.1 (not_le.mpr (hlate run hafter))

/-- An item belongs to the right run, for every spacing of the runs, exactly if no run starts within the lead
behind an item that is inside a run's time. -/
theorem attributed_iff (h : InTurn runs) : Attributed runs ts ↔ ((∃ run ∈ runs, run.Contains ts) →
      ∀ next ∈ runs, ts < next.startedAt → ts < next.startedAt - USER_MESSAGE_LEAD_MS) := by
  constructor
  · rintro ⟨hbelongs, -⟩ hinside next hnext hafter
    by_contra hlead
    obtain ⟨found, hfound, -, hcontains⟩ := hbelongs hinside
    obtain ⟨hnone, -⟩ | ⟨before, last, after, rfl, -, hlate, hlast⟩ := runForTime_cases runs ts
    · rw [hnone] at hfound
      cases hfound
    · have hsame : found = last := by
        rw [hlast] at hfound
        exact (Option.some.inj (Option.mem_filter_iff.mp hfound).1).symm
      subst hsame
      rcases List.mem_append.mp hnext with hbefore | hnext
      · obtain ⟨ended, hended, hle⟩ := (List.pairwise_append.mp h.apart).2.2 next hbefore found List.mem_cons_self
        have hforward := h.forward next (List.mem_append_left _ hbefore) ended hended
        have hstart := hcontains.1
        omega
      · rcases List.mem_cons.mp hnext with rfl | hnext
        · exact absurd hcontains.1 (not_le.mpr hafter)
        · exact hlead (hlate next hnext)
  · intro hspaced
    refine ⟨fun hinside => ?_, not_window h⟩
    obtain ⟨run, hrun, hcontains⟩ := hinside
    have hspaced := hspaced ⟨run, hrun, hcontains⟩
    obtain ⟨-, hlate⟩ | ⟨before, last, after, rfl, hearly, hlate, hlast⟩ := runForTime_cases runs ts
    · have hstart := hcontains.1
      have hnever := hlate run hrun
      have hlead : (0 : Int) < USER_MESSAGE_LEAD_MS := by decide
      omega
    · have hmem : last ∈ before ++ last :: after := List.mem_append_right _ List.mem_cons_self
      have hstarted : last.startedAt ≤ ts := by
        by_contra hfuture
        exact absurd hearly (not_le.mpr (hspaced last hmem (not_le.mp hfuture)))
      have hlastContains : last.Contains ts := by
        rcases List.mem_append.mp hrun with hbefore | hrun
        · have hsame := le_antisymm (h.le_of_contains hbefore hcontains) hstarted
          rw [hsame]
          exact h.contains_start hmem
        · rcases List.mem_cons.mp hrun with rfl | hafter
          · exact hcontains
          · have hstart := hcontains.1
            have hnever := hlate run hafter
            have hlead : (0 : Int) < USER_MESSAGE_LEAD_MS := by decide
            omega
      refine ⟨last, ?_, hmem, hlastContains⟩
      rw [hlast]
      refine Option.mem_filter_iff.mpr ⟨rfl, ?_⟩
      rw [Option.all_eq_true]
      intro completedAt hcompleted
      have hin := hlastContains.2 completedAt hcompleted
      have hslack : (0 : Int) < RUN_END_SLACK_MS := by decide
      exact decide_eq_true (by omega)

private def timedRun (id : String) (startedAt : Int) (completedAt : Option Int) : Run where
  id
  threadId := "t1"
  ordinal := 1
  status := .completed
  startedAt
  completedAt

/-- Two runs ten seconds apart, and an item of the first. -/
theorem attributed_iff_apart : InTurn [timedRun "a" 0 (some 10000), timedRun "b" 20000 none] ∧
      Attributed [timedRun "a" 0 (some 10000), timedRun "b" 20000 none] 9000 := by
  have hturn : InTurn [timedRun "a" 0 (some 10000), timedRun "b" 20000 none] :=
    ⟨by simp [timedRun], by simp [timedRun]⟩
  exact ⟨hturn, (attributed_iff hturn).mpr fun _ => by simp [timedRun, USER_MESSAGE_LEAD_MS]⟩

/-- Two runs two seconds apart: what the first one wrote in its last second belongs to the second one. -/
theorem taken_by_next : InTurn [timedRun "a" 0 (some 10000), timedRun "b" 12000 none] ∧
      (timedRun "a" 0 (some 10000)).Contains 9000 ∧
      runForTime 9000 [timedRun "a" 0 (some 10000), timedRun "b" 12000 none] = some (timedRun "b" 12000 none) ∧
      ¬Attributed [timedRun "a" 0 (some 10000), timedRun "b" 12000 none] 9000 := by
  have hfound : runForTime 9000 [timedRun "a" 0 (some 10000), timedRun "b" 12000 none] =
      some (timedRun "b" 12000 none) := by decide
  have hcontains : (timedRun "a" 0 (some 10000)).Contains 9000 := by simp [Contains, timedRun]
  refine ⟨⟨by simp [timedRun], by simp [timedRun]⟩, hcontains, hfound, fun h => ?_⟩
  obtain ⟨run, hrun, -, hinside⟩ := h.1 ⟨_, List.mem_cons_self, hcontains⟩
  rw [hfound] at hrun
  cases hrun
  exact absurd hinside.1 (by decide)

end Run

end Sightr
