import Sightr.Herd.Listed

/-!
# Every live pane has a visible thread

After a reconcile a listed pane has one thread of its own, its pane and its terminal, and every thread of
an earlier terminal is archived. The pane's own thread is live unless the operator archived it or its
spawn failed, but for one case: a terminal that comes back. Its thread was archived when another terminal
took the pane, and only a thread archived for the loss of its pane is revived, so a pane that loses its
terminal for one look and gets it back has no live thread at all.
-/

namespace Sightr

/-! ### Visible panes -/

/-- Exactly one thread is the pane's, every other one of its pane is archived, and it is not archived
itself unless the operator archived it or its spawn failed. -/
def PaneVisible (p : Projection) (pane : AgentView) : Prop :=
  ∃ t ∈ p.threads.rows, t.paneId = pane.paneId ∧ t.terminalId = pane.terminalId.getD "" ∧
    (∀ s ∈ p.threads.rows, s.paneId = pane.paneId → s.terminalId = pane.terminalId.getD "" → s = t) ∧
    (∀ s ∈ p.threads.rows, s.paneId = pane.paneId → s ≠ t → s.shelf = .archived) ∧
    (t.shelf = .archived → t.archiveReason = some .user ∨ t.archiveReason = some .spawnFailed)

instance (p : Projection) (pane : AgentView) : Decidable (PaneVisible p pane) := by
  unfold PaneVisible
  infer_instance

/-- No listed pane is of a terminal whose thread was archived when another terminal took the pane. -/
def NoTerminalReturns (p : Projection) (snap : EngineSnapshot) : Prop :=
  ∀ pane ∈ snap.panes, ∀ t ∈ p.threads.rows, t.paneId = pane.paneId →
    t.terminalId = pane.terminalId.getD "" → t.shelf = .archived → t.archiveReason ≠ some .terminalReplaced

instance (p : Projection) (snap : EngineSnapshot) : Decidable (NoTerminalReturns p snap) := by
  unfold NoTerminalReturns
  infer_instance

theorem SoundDiff.allVisible_iff {p p' : Projection} {ctx : HerdDiffContext} {snap : EngineSnapshot}
    (h : SoundDiff p ctx snap p') (hsound' : p'.Sound) :
    (∀ pane ∈ snap.panes, PaneVisible p' pane) ↔ NoTerminalReturns p snap := by
  have hown (pane : AgentView) (hpane : pane ∈ snap.panes) :=
    h.ownRow ⟨ctx.newId, ctx.first, ctx.missingThreads, ctx.missingProjects, rfl⟩ hpane
  constructor
  · intro hvisible pane hpane t ht htpane htterminal harchived hreplaced
    obtain ⟨own, hownMem, -, -, hunique, -, hreason⟩ := hvisible pane hpane
    obtain ⟨t', ht', htpane', htterminal', hcase⟩ := hown pane hpane
    obtain rfl := hunique t' ht' htpane' htterminal'
    rcases hcase with ⟨harchived', -, s, hs, hspane, hsterminal, -, -, -, hsame⟩ | ⟨-, -, hrevived⟩
    · obtain rfl := h.sound.apart s hs t ht (hspane.trans htpane.symm) (hsterminal.trans htterminal.symm)
      rw [hsame, hreplaced] at hreason
      rcases hreason harchived' with hreason | hreason <;> cases hreason
    · have hlost := hrevived t ht htpane htterminal harchived
      rw [hreplaced] at hlost
      rcases hlost with hlost | hlost <;> cases hlost
  · intro hnone pane hpane
    obtain ⟨t', ht', htpane, htterminal, hcase⟩ := hown pane hpane
    refine ⟨t', ht', htpane, htterminal, fun s hs hspane hsterminal => ?_, fun s hs hspane hne => ?_,
      fun harchived => ?_⟩
    · exact hsound'.apart s hs t' ht' (hspane.trans htpane.symm) (hsterminal.trans htterminal.symm)
    · exact h.otherRows hsound' hpane ht' htpane htterminal hs hspane hne
    · rcases hcase with ⟨-, -, t, ht, htpane', htterminal', htarchived, hclosed, hdown, hsame⟩ | ⟨hlive, -⟩
      · have hreplaced := hnone pane hpane t ht htpane' htterminal' htarchived
        have hsome := (h.sound.shelved t ht).archiveReason.mpr htarchived
        rw [hsame]
        cases hreason : t.archiveReason with
        | none => simp [hreason] at hsome
        | some reason =>
          rw [hreason] at hclosed hdown hreplaced
          cases reason <;> simp_all
      · exact absurd harchived hlive

namespace HerdWorld

/-! ### Runs -/

/-- After a reconcile of any reachable state every listed pane is visible exactly if no terminal
returned. -/
theorem visible_iff {w : HerdWorld} (hw : (boot .new).NamedRun w) {snap : EngineSnapshot}
    {ctx : HerdDiffContext} {ts : Int} (hpanes : (snap.panes.map (·.paneId)).Nodup)
    (hnames : ∀ i, ctx.newId i ≠ "") (hfresh : FreshIds ctx w.projection.listThreads snap.panes.length) :
    (∀ pane ∈ snap.panes, PaneVisible (w.reconcile snap ctx ts).projection pane) ↔
      NoTerminalReturns w.projection snap := by
  have hnext : (boot .new).NamedRun (w.reconcile snap ctx ts) := .next hw (a := .reconcile snap ctx ts) hnames rfl
  exact (reconcile_after (sound_of_run hw) hpanes hfresh).1.allVisible_iff (sound_of_run hnext)

def paneOf (terminalId : Option String) : AgentView := { barePane with terminalId }

/-- A new bridge sees one pane. -/
theorem visible_first : PaneVisible
    ((boot .new).reconcile (onePane (paneOf (some "term-1"))) (quietContext 1 fun _ => "t1") 1).projection
    (paneOf (some "term-1")) :=
  (visible_iff .refl (by decide) (fun _ => by simp [quietContext]) (by decide)).mpr (by decide)
    (paneOf (some "term-1")) (by decide)

def terminalLost : HerdWorld :=
  ((boot .new).reconcile (onePane (paneOf (some "term-1"))) (quietContext 1 fun _ => "t1") 1).reconcile
    (onePane (paneOf none)) (quietContext 2 fun _ => "t2") 2

/-- A terminal that returns leaves its pane without a live thread. -/
theorem terminal_returns : ¬ ∀ (w : HerdWorld) (snap : EngineSnapshot) (ctx : HerdDiffContext) (ts : Int),
      (boot .new).NamedRun w → (snap.panes.map (·.paneId)).Nodup → (∀ i, ctx.newId i ≠ "") →
        FreshIds ctx w.projection.listThreads snap.panes.length →
          ∀ pane ∈ snap.panes, PaneVisible (w.reconcile snap ctx ts).projection pane := by
  intro h
  have hrun : (boot .new).NamedRun terminalLost :=
    .next (a := .reconcile (onePane (paneOf none)) (quietContext 2 fun _ => "t2") 2)
      (.next (a := .reconcile (onePane (paneOf (some "term-1"))) (quietContext 1 fun _ => "t1") 1) .refl
        (fun _ => by simp [quietContext]) rfl) (fun _ => by simp [quietContext]) rfl
  have hvisible := h terminalLost (onePane (paneOf (some "term-1"))) (quietContext 3 fun _ => "t3") 3 hrun
    (by decide) (fun _ => by simp [quietContext]) (by decide)
  exact absurd hvisible (by decide)

end HerdWorld

end Sightr
