import Sightr.Herd.Drafts

/-!
# Threads that are starting

A spawn makes a thread `starting` and leaves a job in memory to take that status back: its ends, `fail`,
`giveUp` and `finish`, do so unless the thread is archived, and `fail` leaves it on a thread whose pane it
closed. The herd ingest keeps the status while the pane still shows the bare shell. A restart loses the
job, and nothing else ever clears the status of such a pane.
-/

namespace Sightr

open Keyed (Table)

/-! ### One rewrite -/

def MakesNoneStarting (draft : EventDraft) : Prop :=
  match draft.payload with
  | .threadCreated thread => thread.status ≠ .starting
  | .threadUpdated patch _ => patch.status ≠ .val .starting
  | _ => True

variable {draft : EventDraft}

theorem ServerPayload.Rewrites.was_starting {thread next : ServerThread}
    (h : ServerPayload.Rewrites draft.payload thread next) (hdraft : MakesNoneStarting draft)
    (hstarting : next.status = .starting) : thread.status = .starting := by
  generalize hpay : draft.payload = payload at h
  unfold MakesNoneStarting at hdraft
  cases h with
  | patched hnext =>
    simp only [hpay] at hdraft
    rcases (ServerThread.status_patched hnext).2 with ⟨-, hsame⟩ | hval
    · rw [← hsame, hstarting]
    · rw [hval, hstarting] at hdraft
      exact absurd rfl hdraft
  | reshelved | archived => exact hstarting

/-! ### The drafts of the writers -/

theorem HerdDraft.makesNoneStarting {ctx : HerdDiffContext} (h : HerdDraft ctx draft) :
    MakesNoneStarting draft := by
  unfold HerdDraft at h
  unfold MakesNoneStarting
  cases hpay : draft.payload with
  | threadCreated thread =>
    simp only [hpay] at h
    obtain ⟨pane, id, rfl⟩ := h
    exact threadStatusFor_ne_starting _ _ _ _
  | threadUpdated patch at_ => simpa only [hpay] using h
  | _ => trivial

theorem PlainDraft.makesNoneStarting (h : PlainDraft draft) : MakesNoneStarting draft := by
  unfold PlainDraft at h
  unfold MakesNoneStarting
  cases hpay : draft.payload with
  | threadCreated => simp only [hpay] at h
  | threadUpdated patch at_ =>
    simp only [hpay] at h
    exact h.1
  | _ => trivial

/-! ### Batches -/

/-- The draft is about one thread, whose id is among those that may be `starting`. -/
def MayStart (S : String → Prop) (draft : EventDraft) : Prop :=
  ∃ id, draft.threadId = some id ∧ S id ∧ ∀ thread, draft.payload = .threadCreated thread → thread.id = id

variable {db db' : Db} {options : AppendOptions} {ts : Int} {drafts : List EventDraft} {written : List StoredEvent}
  {S : String → Prop}

theorem starting_traceM (hdrafts : ∀ draft ∈ drafts, MakesNoneStarting draft ∨ MayStart S draft)
    (hdb : ∀ t ∈ db.projection.threads.rows, t.status = .starting → S t.id)
    (h : Fold.traceM (Db.writeDraft options ts) db drafts = .ok (db', written)) :
    ∀ t ∈ db'.projection.threads.rows, t.status = .starting → S t.id := by
  refine Db.threads_traceM hdb (fun raw hraw thread hpay hstarting => ?_)
    (fun raw hraw thread next hid hnext hthread hstarting => ?_) h
  · rcases hdrafts raw hraw with hnone | ⟨id, -, hid, hcreated⟩
    · simp only [MakesNoneStarting, hpay] at hnone
      exact absurd hstarting hnone
    · obtain rfl := hcreated thread hpay
      exact hid
  · have hkey : (threadParams next).id = thread.id := hnext.id_eq
    rw [hkey]
    rcases hdrafts raw hraw with hnone | ⟨id, hraw, hS, -⟩
    · exact hthread (hnext.was_starting hnone hstarting)
    · obtain rfl : thread.id = id := Option.some.inj (hid.symm.trans hraw)
      exact hS

theorem starting_lastPatch {at_ : Int} {threadId : String} {status : ThreadStatus}
    (hstatus : status ≠ .starting) (hdrafts : ∀ draft ∈ drafts, MakesNoneStarting draft)
    (hdb : ∀ t ∈ db.projection.threads.rows, t.status = .starting → S t.id)
    (h : Fold.traceM (Db.writeDraft options ts) db (drafts ++
      [{ threadId := some threadId, payload := .threadUpdated { status := .val status } at_ }]) = .ok (db', written)) :
    ∀ t ∈ db'.projection.threads.rows, t.status = .starting → S t.id ∧ t.id ≠ threadId := by
  obtain ⟨m, out, out', hm, hlast, -⟩ := Fold.traceM_append_eq_ok.mp h
  obtain ⟨m', event, rest, hwrite, hnil, -⟩ := Fold.traceM_cons_eq_ok.mp hlast
  cases hnil
  obtain ⟨rfl, happ, -, -⟩ := Db.writeDraft_projection hwrite
  have hmid := starting_traceM (fun draft hdraft => .inl (hdrafts draft hdraft)) hdb hm
  have hpay := @Db.payload_stamp_of_type_ne m options ts
    { threadId := some threadId, payload := .threadUpdated { status := .val status } at_ }
    (by simp [Payload.type])
  have hid := Db.threadId_stamp m options ts
    { threadId := some threadId, payload := .threadUpdated { status := .val status } at_ }
  simp only [Projection.applyEvent, hpay, Projection.rewriteThread_eq_ok, hid] at happ
  obtain ⟨id, thread, next, hthreadId, -, hfind, hnext, -, hprojection⟩ := happ
  obtain rfl : threadId = id := Option.some.inj hthreadId
  obtain ⟨hkey, hval⟩ := ServerThread.status_patched hnext
  have hnextId : next.id = threadId := hkey.trans (Table.key_of_find? hfind)
  intro t ht hstarting
  rw [hprojection] at ht
  rcases Table.mem_set.mp ht with rfl | ⟨ht, hne⟩
  · -- The rewritten thread has the status of the patch.
    have hnew : next.status = status := by simpa [eq_comm] using hval
    exact absurd (hnew.symm.trans hstarting) hstatus
  · refine ⟨hmid t ht hstarting, ?_⟩
    rw [← hnextId]
    exact hne

/-! ### Runs -/

namespace HerdWorld

def StartingHasJob (w : HerdWorld) : Prop := ∀ t ∈ w.projection.threads.rows, t.status = .starting → t.id ∈ w.jobs

/-- The thread is not `starting`, or it is on a live shelf. -/
def LiveWhileStarting (w : HerdWorld) (threadId : String) : Prop :=
  ∀ t ∈ w.projection.threads.find? threadId, t.status = .starting → t.shelf ≠ .archived

instance (w : HerdWorld) (threadId : String) : Decidable (w.LiveWhileStarting threadId) :=
  inferInstanceAs (Decidable (∀ t ∈ w.projection.threads.find? threadId, _))

/-- The bridge does not restart over a `starting` thread, no job ends over one that was archived, and none
fails by closing the pane of one. -/
def KeepsJobs (w : HerdWorld) : Action → Prop
  | .restart => ∀ t ∈ w.projection.threads.rows, t.status ≠ .starting
  | .jobFails threadId _ _ closed _ _ => w.LiveWhileStarting threadId ∧
      (closed = true → ∀ t ∈ w.projection.threads.find? threadId, t.status ≠ .starting)
  | .jobGivesUp threadId _ _ _ | .jobReturns threadId | .jobReady threadId _ _ =>
    w.LiveWhileStarting threadId
  | _ => True

instance (w : HerdWorld) (a : Action) : Decidable (w.KeepsJobs a) := by
  cases a <;> unfold KeepsJobs <;> infer_instance

/-- The last draft gives the thread another status than `starting`. -/
def EndsStarting (threadId : String) (drafts : List EventDraft) : Prop :=
  ∃ pre status at_, status ≠ .starting ∧ drafts = pre ++
    [{ threadId := some threadId, payload := .threadUpdated { status := .val status } at_ }]

variable {w w' : HerdWorld} {threadId : String} {drafts : List EventDraft}

private theorem StartingHasJob.endJob {options : AppendOptions} {ts : Int} (hw : w.StartingHasJob)
    (hdrafts : ∀ draft ∈ drafts, MakesNoneStarting draft)
    (hlast : (∀ t ∈ w.projection.threads.find? threadId, t.status ≠ .starting) ∨ EndsStarting threadId drafts)
    (h : w.endJob threadId drafts options ts = some w') : w'.StartingHasJob := by
  -- Who is `starting` afterwards was before, and is not the job's thread.
  have hafter : ∀ m : HerdWorld,
      (∀ t ∈ m.projection.threads.rows, t.status = .starting → t.id ∈ w.jobs ∧ t.id ≠ threadId) →
      m.jobs = w.jobs → StartingHasJob { m with jobs := m.jobs.erase threadId } := by
    intro m hm hjobs t ht hstarting
    obtain ⟨hmem, hne⟩ := hm t ht hstarting
    exact (List.mem_erase_of_ne hne).mpr (hjobs ▸ hmem)
  have hothers (hrest : ∀ t ∈ w.projection.threads.find? threadId, t.status ≠ .starting) :
      ∀ t ∈ w.projection.threads.rows, t.status = .starting → t.id ∈ w.jobs ∧ t.id ≠ threadId := by
    refine fun t ht hstarting => ⟨hw t ht hstarting, ?_⟩
    rintro rfl
    exact hrest t (Table.find?_key ht) hstarting
  unfold HerdWorld.endJob at h
  split_ifs at h with hjob hnone
  · cases h
    rcases hlast with hrest | ⟨pre, status, at_, -, heq⟩
    · exact hafter w (hothers hrest) rfl
    · simp [hnone] at heq
  · obtain ⟨m, hm, rfl⟩ := Option.map_eq_some_iff.mp h
    obtain ⟨ledger, hledger, rfl⟩ := append_eq_some.mp hm
    obtain ⟨db, written, happ, rfl⟩ := Ledger.step_append_eq_some.mp hledger
    obtain ⟨m, htrace, hsame⟩ := Db.append_eq_ok happ
    refine hafter { w with ledger := ⟨db, w.ledger.written ++ written⟩ } ?_ rfl
    simp only [projection, hsame.projection]
    rcases hlast with hrest | ⟨pre, status, at_, hstatus, rfl⟩
    · refine fun t ht hstarting => ?_
      exact starting_traceM (S := fun id => id ∈ w.jobs ∧ id ≠ threadId)
        (fun draft hdraft => .inl (hdrafts draft hdraft)) (hothers hrest) htrace t ht hstarting
    · have hpre : ∀ draft ∈ pre, MakesNoneStarting draft := fun draft hdraft =>
        hdrafts draft (List.mem_append_left _ hdraft)
      exact starting_lastPatch (S := (· ∈ w.jobs)) hstatus hpre hw htrace

private theorem LiveWhileStarting.ends (hlive : w.LiveWhileStarting threadId)
    (hends : ∀ t, w.projection.threads.find? threadId = some t → t.status = .starting → t.shelf ≠ .archived →
      EndsStarting threadId drafts) :
    (∀ t ∈ w.projection.threads.find? threadId, t.status ≠ .starting) ∨ EndsStarting threadId drafts := by
  by_cases hrest : ∀ t ∈ w.projection.threads.find? threadId, t.status ≠ .starting
  · exact .inl hrest
  · refine .inr ?_
    push Not at hrest
    obtain ⟨t, hfind, hstarting⟩ := hrest
    exact hends t hfind hstarting (hlive t hfind hstarting)

theorem spawnEvents_mayStart {threads : List ServerThread} {newProject : Option Project}
    {fields : SpawnFields} {created : CreatedShell} {newId : String} {at_ : Int} {S : String → Prop}
    (hS : fields.status = .starting → S (spawnEvents threads newProject fields created newId at_).1) :
    ∀ draft ∈ (spawnEvents threads newProject fields created newId at_).2,
      MakesNoneStarting draft ∨ MayStart S draft := by
  obtain ⟨projects, hprojects, ⟨seen, terminalId, -, hspawn⟩ | ⟨-, hspawn⟩⟩ :=
    spawnEvents_eq threads newProject fields created newId at_
  all_goals
    intro draft hdraft
    rw [hspawn] at hS
    rw [hspawn, List.mem_append, List.mem_singleton] at hdraft
    rcases hdraft with hdraft | rfl
    · exact .inl (hprojects draft hdraft).makesNoneStarting
    · by_cases hstatus : fields.status = .starting
      · exact .inr ⟨_, rfl, hS hstatus, fun thread hcreated => by cases hcreated <;> rfl⟩
      · exact .inl (by simpa [MakesNoneStarting, SpawnFields.patch, spawnedThread] using hstatus)

private theorem StartingHasJob.spawn {w w' : HerdWorld} {newProject : Option Project} {fields : SpawnFields}
    {created : CreatedShell} {newId : String} {options : AppendOptions} {at_ : Int} (hw : w.StartingHasJob)
    (h : w.step (.spawn newProject fields created newId options at_) = some w') : w'.StartingHasJob := by
  simp only [HerdWorld.step] at h
  split at h
  · cases h
  · obtain ⟨m, hm, hw'⟩ := Option.map_eq_some_iff.mp h
    obtain ⟨ledger, hledger, rfl⟩ := append_eq_some.mp hm
    obtain ⟨db, written, happ, rfl⟩ := Ledger.step_append_eq_some.mp hledger
    obtain ⟨m, htrace, hsame⟩ := Db.append_eq_ok happ
    have hjobs : ∀ t ∈ db.projection.threads.rows, t.status = .starting → t.id ∈ w'.jobs := by
      rw [hsame.projection, ← hw']
      refine starting_traceM (S := fun id => id ∈ HerdWorld.jobs _) (spawnEvents_mayStart fun hstatus => ?_)
        (fun t ht hstarting => ?_) htrace
      · simp [hstatus]
      · split_ifs
        · exact List.mem_append_left _ (hw t ht hstarting)
        · exact hw t ht hstarting
    have hledger' : w'.ledger.db = db := by
      rw [← hw']
      split_ifs <;> rfl
    unfold StartingHasJob
    rw [projection, hledger']
    exact hjobs

theorem jobs_append {batch : Batch} (h : w.append batch = some w') : w'.jobs = w.jobs := by
  obtain ⟨ledger, -, rfl⟩ := append_eq_some.mp h
  rfl

theorem jobs_reconcile (w : HerdWorld) (snap : EngineSnapshot) (ctx : HerdDiffContext) (ts : Int) :
    (w.reconcile snap ctx ts).jobs = w.jobs := by
  unfold HerdWorld.reconcile
  dsimp only
  split
  · rfl
  · rename_i m hm
    split_ifs at hm
    · cases hm
      rfl
    · have hjobs : m.jobs = w.jobs := jobs_append hm
      exact hjobs

variable {a : Action}

private theorem jobs_step (h : w.step a = some w') : match a with
    | .spawn .. | .jobFails .. | .jobGivesUp .. | .jobReturns _ | .jobReady .. | .restart => True
    | _ => w'.jobs = w.jobs := by
  cases a with
  | reconcile snap ctx ts =>
    cases h
    exact jobs_reconcile w snap ctx ts
  | command command paneAlive options at_ =>
    simp only [HerdWorld.step] at h
    split at h
    · cases h
      rfl
    · exact jobs_append h
  | autoSettle days waiting at_ =>
    simp only [HerdWorld.step] at h
    split at h
    · cases h
      rfl
    · exact jobs_append h
  | closePane thread json options at_ => exact jobs_append h
  | prune at_ =>
    simp only [HerdWorld.step] at h
    obtain ⟨ledger, -, rfl⟩ := Option.map_eq_some_iff.mp h
    rfl
  | other drafts options ts =>
    simp only [HerdWorld.step] at h
    split_ifs at h
    exact jobs_append h
  | _ => trivial

theorem StartingHasJob.of_store (hw : w.StartingHasJob)
    (hdrafts : ∀ draft ∈ w.drafts a, MakesNoneStarting draft) (hjobs : w'.jobs = w.jobs) (h : w.step a = some w') :
    w'.StartingHasJob := by
  unfold StartingHasJob
  rw [hjobs]
  cases step_store h with
  | same hledger =>
    rw [projection, hledger]
    exact hw
  | batch batch hbatch hstep =>
    obtain ⟨db, written, happ, hledger⟩ := Ledger.step_append_eq_some.mp hstep
    obtain ⟨m, htrace, hsame⟩ := Db.append_eq_ok happ
    rw [projection, hledger]
    simp only [hsame.projection]
    exact starting_traceM (S := (· ∈ w.jobs)) (fun draft hdraft => .inl (hdrafts draft (hbatch ▸ hdraft))) hw
      htrace
  | pruned at_ ha hstep =>
    have hledger : w'.ledger = { w.ledger with db := (w.ledger.db.prune at_).1 } := (Option.some.inj hstep).symm
    intro t ht
    simp only [projection, hledger, Db.prune] at ht
    rw [Projection.threads_prune, Table.rows_filter] at ht
    exact hw t (List.mem_of_mem_filter ht)

theorem StartingHasJob.step (hw : w.StartingHasJob) (hkeeps : w.KeepsJobs a) (h : w.step a = some w') :
    w'.StartingHasJob := by
  cases a with
  | restart =>
    cases h
    exact fun t ht hstarting => absurd hstarting (hkeeps t ht)
  | spawn => exact hw.spawn h
  | jobFails threadId stage message closed options at_ =>
    have hdrafts := drafts_plain h (by simp) (by simp)
    refine hw.endJob (fun draft hdraft => (hdrafts draft hdraft).makesNoneStarting) ?_ h
    refine hkeeps.1.ends fun t hfind hstarting hshelf => ?_
    have hopen : closed = false := Bool.eq_false_iff.mpr fun hc => hkeeps.2 hc t hfind hstarting
    refine ⟨[{ threadId := some threadId, payload := .threadCreateFailed threadId stage message },
      spawnNotice threadId message at_], .idle, at_, by simp, ?_⟩
    simp [drafts, failEvents, hfind, hshelf, hopen, hstarting]
  | jobGivesUp threadId message options at_ =>
    have hdrafts := drafts_plain h (by simp) (by simp)
    refine hw.endJob (fun draft hdraft => (hdrafts draft hdraft).makesNoneStarting) ?_ h
    refine LiveWhileStarting.ends hkeeps fun t hfind hstarting hshelf => ?_
    refine ⟨[{ threadId := some threadId, payload := .threadCreateFailed threadId .agent message },
      spawnNotice threadId message at_], .failed, at_, by simp, ?_⟩
    simp [drafts, giveUpEvents, hfind, hshelf, hstarting]
  | jobReady threadId options at_ =>
    have hdrafts := drafts_plain h (by simp) (by simp)
    refine hw.endJob (fun draft hdraft => (hdrafts draft hdraft).makesNoneStarting) ?_ h
    refine LiveWhileStarting.ends hkeeps fun t hfind hstarting hshelf => ?_
    refine ⟨[], .idle, at_, by simp, ?_⟩
    simp [drafts, readyEvents, hfind, hshelf, hstarting]
  | jobReturns threadId =>
    simp only [HerdWorld.step] at h
    split_ifs at h with harchived
    refine hw.endJob (by simp) (.inl fun t hfind hstarting => ?_) h
    rw [Option.mem_def] at hfind
    simp only [hfind, Option.any_some, decide_eq_true_eq] at harchived
    exact hkeeps t hfind hstarting harchived
  | reconcile snap ctx ts =>
    have hdrafts : ∀ draft ∈ w.drafts (.reconcile snap ctx ts), MakesNoneStarting draft :=
      fun draft hdraft => HerdDraft.makesNoneStarting (diffHerd_drafts draft hdraft)
    exact hw.of_store hdrafts (jobs_step h) h
  | _ =>
    have hdrafts := drafts_plain h (by simp) (by simp)
    exact hw.of_store (fun draft hdraft => (hdrafts draft hdraft).makesNoneStarting) (jobs_step h) h

theorem StartingHasJob.boot : (boot .new).StartingHasJob := by
  intro t ht
  cases ht

/-- In every run that does not end a job, or lose it, over a thread that stays `starting`, every `starting`
thread has its job under way. -/
theorem starting_has_job {w : HerdWorld} (h : Runs.Run step KeepsJobs (boot .new) w) :
    ∀ t ∈ w.projection.threads.rows, t.status = .starting → t.id ∈ w.jobs :=
  h.invariant (P := StartingHasJob) (fun _ _ _ hm hkeeps hstep => hm.step hkeeps hstep)
    StartingHasJob.boot

/-- An agent that was just spawned is `starting`, with its job. -/
theorem starting_has_job_spawned : ∃ w : HerdWorld, (∃ t ∈ w.projection.threads.rows, t.status = .starting) ∧
      ∀ t ∈ w.projection.threads.rows, t.status = .starting → t.id ∈ w.jobs := by
  have hrun : (Runs.exec step KeepsJobs (boot .new) [spawnAgent]).any
      (fun w => w.projection.threads.rows.any (·.status = .starting)) = true := by decide
  obtain ⟨w, hw, hstarting⟩ := Runs.exists_run_of_exec hrun
  exact ⟨w, by simpa using hstarting, starting_has_job hw⟩

/-- After a restart over a spawn, a listed pane's thread can be `starting` with no job to change that. -/
theorem starting_after_restart : ¬ ∀ (w w' : HerdWorld) (snap : EngineSnapshot) (ctx : HerdDiffContext) (ts : Int),
      (boot .new).Reaches w → w.step (.reconcile snap ctx ts) = some w' →
      ∀ t ∈ w'.projection.threads.rows, t.paneId ∈ snap.panes.map (·.paneId) → t.id ∉ w'.jobs →
        t.status ≠ .starting := by
  intro h
  have hrun : (Runs.exec step (fun _ _ => True) (boot .new) [spawnAgent, .restart]).any
      (fun w => (w.reconcile (onePane barePane) (quietContext 9000 fun _ => "") 9000).jobs = [] ∧
        (w.reconcile (onePane barePane) (quietContext 9000 fun _ => "") 9000).projection.threads.rows.any
          fun t => t.paneId = "w1:p1" && t.status = .starting) = true := by decide
  obtain ⟨w, hw, hend⟩ := Runs.exists_run_of_exec hrun
  simp only [List.any_eq_true, Bool.and_eq_true, decide_eq_true_eq] at hend
  obtain ⟨hjobs, t, ht, hpane, hstarting⟩ := hend
  refine h w _ (onePane barePane) (quietContext 9000 fun _ => "") 9000 hw rfl t ht ?_ ?_ hstarting
  · rw [hpane]
    decide
  · rw [hjobs]
    exact List.not_mem_nil

end HerdWorld

end Sightr
