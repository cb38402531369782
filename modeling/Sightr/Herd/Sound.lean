import Sightr.Herd.Applies

/-!
# The tables a diff relies on, over whole runs

In every run whose new threads have ids, the tables are as the diff relies on them: every thread has an
id, the fields of its shelf and its own pane and terminal, and every request has its thread. So every
diff applies, in every reachable state.
-/

namespace Sightr

open Keyed (Table)

namespace HerdWorld

def NamesThreads (_ : HerdWorld) : Action → Prop
  | .reconcile _ ctx _ => ∀ i, ctx.newId i ≠ ""
  | .spawn _ _ _ newId _ _ => newId ≠ ""
  | _ => True

abbrev NamedRun (w w' : HerdWorld) : Prop := Runs.Run step NamesThreads w w'

variable {w w' : HerdWorld} {a : Action}

theorem created_named (hnames : w.NamesThreads a) (h : w.step a = some w') :
    ∀ draft ∈ w.drafts a, ∀ thread, draft.payload = .threadCreated thread → thread.id ≠ "" := by
  cases a with
  | reconcile snap ctx ts =>
    intro draft hdraft thread hpay
    have hherd := diffHerd_drafts draft hdraft
    simp only [HerdDraft, hpay] at hherd
    obtain ⟨pane, i, rfl⟩ := hherd
    exact hnames i
  | spawn newProject fields created newId options at_ =>
    intro draft hdraft thread hpay
    simp only [drafts] at hdraft
    obtain ⟨projects, hprojects, ⟨seen, terminalId, -, hspawn⟩ | ⟨-, hspawn⟩⟩ :=
      spawnEvents_eq w.projection.listThreads newProject fields created newId at_
    all_goals
      rw [hspawn, List.mem_append, List.mem_singleton] at hdraft
      rcases hdraft with hdraft | rfl
      · have hplain := hprojects draft hdraft
        simp only [PlainDraft, hpay] at hplain
    · cases hpay
    · cases hpay
      exact hnames
  | _ =>
    intro draft hdraft thread hpay
    have hplain := drafts_plain h (by simp) (by simp) draft hdraft
    simp only [PlainDraft, hpay] at hplain

theorem projection_step {I : Projection → Prop}
    (hevent : ∀ (p p' : Projection) (event : StoredEvent), I p → p.applyEvent event = .ok p' → I p')
    (hprune : ∀ (p : Projection) (at_ : Int), I p → I (p.prune at_)) (hw : I w.projection) (h : w.step a = some w') :
    I w'.projection := by
  cases step_store h with
  | same hledger => rwa [projection, hledger]
  | batch batch hdrafts hstep =>
    obtain ⟨db, written, happ, hledger⟩ := Ledger.step_append_eq_some.mp hstep
    rw [projection, hledger]
    exact Db.projection_append hevent hw happ
  | pruned at_ ha hstep =>
    have hledger : w'.ledger = { w.ledger with db := (w.ledger.db.prune at_).1 } := (Option.some.inj hstep).symm
    rw [projection, hledger]
    exact hprune _ at_ hw

theorem threads_step {P : ServerThread → Prop} (hw : ∀ t ∈ w.projection.threads.rows, P t)
    (hcreate : ∀ draft ∈ w.drafts a, ∀ thread, draft.payload = .threadCreated thread → P (threadParams thread))
    (hrewrite : ∀ (draft : EventDraft) (thread next : ServerThread),
      ServerPayload.Rewrites draft.payload thread next → P thread → P (threadParams next))
    (h : w.step a = some w') : ∀ t ∈ w'.projection.threads.rows, P t := by
  cases step_store h with
  | same hledger =>
    rw [projection, hledger]
    exact hw
  | batch batch hdrafts hstep =>
    obtain ⟨db, written, happ, hledger⟩ := Ledger.step_append_eq_some.mp hstep
    rw [projection, hledger]
    rw [← hdrafts] at hcreate
    exact Db.threads_append hw hcreate (fun raw _ thread next _ hnext => hrewrite raw thread next hnext) happ
  | pruned at_ ha hstep =>
    have hledger : w'.ledger = { w.ledger with db := (w.ledger.db.prune at_).1 } := (Option.some.inj hstep).symm
    intro t ht
    simp only [projection, hledger, Db.prune] at ht
    rw [Projection.threads_prune, Table.rows_filter] at ht
    exact hw t (List.mem_of_mem_filter ht)

theorem threadParams_ne_false (t : ServerThread) : (threadParams t).compacting ≠ some false := by
  unfold threadParams
  dsimp only
  split_ifs <;> simp

theorem sound_step (hw : w.projection.Sound) (hshelved : w.AllShelved) (hnames : w.NamesThreads a)
    (h : w.step a = some w') : w'.projection.Sound where
  named := threads_step hw.named (created_named hnames h) (fun _ thread next hnext hthread => by
    show next.id ≠ ""
    rwa [hnext.id_eq]) h
  columns := threads_step hw.columns (fun _ _ thread _ => threadParams_ne_false thread)
    (fun _ _ next _ _ => threadParams_ne_false next) h
  shelved := (hshelved.step h).threads
  apart := projection_step (fun _ _ _ hp happ => hp.applyEvent happ)
    (fun p at_ hp => hp.of_subset fun t ht => by
      rw [Projection.threads_prune, Table.rows_filter] at ht
      exact List.mem_of_mem_filter ht) hw.apart h
  owned := projection_step (fun _ _ _ hp happ => hp.applyEvent happ) (fun _ at_ hp => hp.prune at_) hw.owned h

theorem sound_boot : (boot .new).projection.Sound where
  named _ ht := absurd ht List.not_mem_nil
  columns _ ht := absurd ht List.not_mem_nil
  shelved _ ht := absurd ht List.not_mem_nil
  apart := .empty
  owned := .empty

theorem sound_of_run (h : (boot .new).NamedRun w) : w.projection.Sound := by
  have hall : w.projection.Sound ∧ w.AllShelved :=
    h.invariant (P := fun w => w.projection.Sound ∧ w.AllShelved)
      (fun _ _ _ hm hnames hstep => ⟨sound_step hm.1 hm.2 hnames hstep, hm.2.step hstep⟩)
      ⟨sound_boot, .boot⟩
  exact hall.1

/-! ### A reconcile -/

/-- What a reconcile leaves, when its ids are new and each pane is listed once. -/
theorem reconcile_after {w : HerdWorld} (hsound : w.projection.Sound) {snap : EngineSnapshot}
    {ctx : HerdDiffContext} {ts : Int} (hpanes : (snap.panes.map (·.paneId)).Nodup)
    (hfresh : FreshIds ctx w.projection.listThreads snap.panes.length) :
    SoundDiff w.projection (w.context ctx) snap (w.reconcile snap ctx ts).projection ∧
      (w.reconcile snap ctx ts).first = false ∧
      (w.reconcile snap ctx ts).missingThreads = (w.diff snap ctx).missingThreads ∧
      (w.reconcile snap ctx ts).missingProjects = (w.diff snap ctx).missingProjects := by
  obtain ⟨db, written, happ, hafter⟩ :=
    @Projection.Sound.append_diff (w.context ctx) snap ts w.ledger.db hsound hpanes hfresh
  have hdiff : (w.diff snap ctx).events = (diffHerd w.ledger.db.projection.herd (w.context ctx) snap).events := rfl
  unfold reconcile
  dsimp only
  by_cases hnone : (w.diff snap ctx).events = []
  · rw [if_pos hnone]
    rw [← hdiff, hnone] at happ
    -- A diff without events leaves the store as it is.
    have hsame : db = w.ledger.db := by
      have hempty : w.ledger.db.append { drafts := [], ts } = .ok (w.ledger.db, []) := Db.append_of_traceM rfl
      exact (Prod.mk.inj (Except.ok.inj (happ.symm.trans hempty))).1
    rw [hsame] at hafter
    exact ⟨⟨hafter, hsound, hpanes, hfresh⟩, rfl, rfl, rfl⟩
  · rw [if_neg hnone]
    have hstep : w.append { drafts := (w.diff snap ctx).events, ts } =
        some { w with ledger := { db, written := w.ledger.written ++ written } } := by
      refine append_eq_some.mpr ⟨_, ?_, rfl⟩
      rw [hdiff]
      exact Ledger.step_append_eq_some.mpr ⟨db, written, happ, rfl⟩
    rw [hstep]
    exact ⟨⟨hafter, hsound, hpanes, hfresh⟩, rfl, rfl, rfl⟩

end HerdWorld

end Sightr
