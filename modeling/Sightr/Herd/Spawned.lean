import Sightr.Herd.Sound

/-!
# A pane that was made and its thread

`threadCreate` of `bridge/threads/spawn.ts` from herdr's reply on. The batch that announces the thread takes over a
live thread of the pane, or inserts a new one; the store refuses the whole batch when another thread, archived or not,
has the pane and the terminal already, and when the workspace herdr names is no project.
-/

namespace Sightr

open Keyed (Table)

/-! ### The command -/

/-- What herdr answers, with what a new project is made of. -/
structure SpawnReply extends CreatedShell where
  workspaceLabel : Option String := none
  workspaceNumber : Option Int := none
  deriving DecidableEq

/-- The stored project of the reply's workspace, or a new one. -/
def projectFrom (p : Projection) (created : SpawnReply) (label : Option String) : Project :=
  match p.projects.find? created.workspaceId with
  | some existing => existing
  | none =>
    let number := created.workspaceNumber.getD 0
    { id := created.workspaceId
      label := (Projection.orText (Projection.orText created.workspaceLabel label) created.workspaceId).getD ""
      labelSource := .herd
      number
      order := number
      status := .idle }

inductive SpawnOutcome
  | refused (status : Nat) (code error : String)
  | threw (error : String)
  | ok (threadId : String)
  deriving DecidableEq

/-- A valid `thread.create`, given herdr's reply: none when making the pane failed. `newProject` is the label of a new
project. -/
def threadCreate (db : Db) (newProject : Option (Option String)) (fields : SpawnFields)
    (reply : Option SpawnReply) (newId commandId : String) (receipt : String × Option String) (at_ : Int) :
    Db × SpawnOutcome :=
  match reply with
  -- Nothing exists yet: the command itself fails, with no receipt.
  | none => (db, .refused 502 "failed" "spawn-failed: create pane failed")
  | some created =>
    let (threadId, drafts) := spawnEvents db.projection.listThreads
      (newProject.map (projectFrom db.projection created)) fields created.toCreatedShell newId at_
    match db.append { drafts, options := { commandId := some commandId, receipt := some receipt }, ts := at_ } with
    | .error e => (db, .threw e)
    | .ok (db', _) => (db', .ok threadId)

/-! ### What it promises -/

/-- A pane that was made has a live thread and the command a receipt; otherwise nothing changed. -/
def KeepsPane (db : Db) (commandId : String) (reply : Option SpawnReply) (result : Db × SpawnOutcome) : Prop :=
  match reply with
  | none => result.1 = db
  | some created => (∃ threadId, result.2 = .ok threadId) ∧
      (∃ t ∈ result.1.projection.threads.rows, t.paneId = created.paneId ∧ t.shelf ≠ .archived) ∧
      (result.1.receipts.find? commandId).isSome = true

namespace Projection

/-- Another thread than `id` has the pane and the terminal. -/
def KeyTaken (p : Projection) (id paneId terminalId : String) : Prop :=
  ∃ t ∈ p.threads.rows, t.id ≠ id ∧ t.paneId = paneId ∧ t.terminalId = terminalId

/-- The thread that is taken over keeps its key, or gets a free one; a new thread gets a free one, in a stored
project or the new one. -/
def SpawnFits (p : Projection) (newProject : Bool) (created : CreatedShell) (newId : String) : Prop :=
  match seenThread p.listThreads created with
  | some seen =>
    seen.terminalId = "" → created.terminalId.getD "" ≠ "" →
      ¬p.KeyTaken seen.id created.paneId (created.terminalId.getD "")
  | none =>
    ¬p.KeyTaken newId created.paneId (created.terminalId.getD "") ∧
      (newProject = true ∨ p.projects.has created.workspaceId = true)

theorem paneTaken_iff {p : Projection} {thread : ServerThread} :
    p.paneTaken thread = true ↔ p.KeyTaken thread.id thread.paneId thread.terminalId := by
  simp [paneTaken, KeyTaken, and_assoc]

end Projection

/-! ### The batch -/

variable {db : Db} {commandId : String} {receipt : String × Option String} {at_ : Int}

private def withProject (p : Projection) (project : Option Project) : Projection := project.elim p p.upsertProject

theorem traceM_project (db : Db) (options : AppendOptions) (at_ : Int) (project : Option Project) :
    ∃ m written, Fold.traceM (Db.writeDraft options at_) db
        (project.toList.map fun p => { payload := .projectUpserted p }) = .ok (m, written) ∧
      m.projection = withProject db.projection project := by
  cases project with
  | none => exact ⟨db, [], rfl, rfl⟩
  | some project =>
    have happ : db.projection.applyEvent (db.stamp options at_ { payload := .projectUpserted project }) =
        .ok (db.projection.upsertProject project) := by
      unfold Projection.applyEvent
      rw [Db.payload_stamp_of_type_ne (by simp [Payload.type])]
    obtain ⟨m, hm, hp⟩ := Db.writeDraft_of_applyEvent (by simp [Payload.type]) happ
    exact ⟨m, _, Fold.traceM_cons_eq_ok.mpr ⟨m, _, [], hm, rfl, rfl⟩, hp⟩

private def threadEvent (threadId : String) (payload : ServerPayload) : StoredEvent where
  sequence := 0
  threadId := some threadId
  payload := payload
  ts := 0

theorem append_spawn_iff (receipt : String × Option String) (at_ : Int) (project : Option Project)
    (threadId : String) {payload : ServerPayload}
    (htype : payload.type = .threadCreated ∨ payload.type = .threadUpdated)
    (hnew : db.receipts.find? commandId = none) (q : Projection) :
    (∃ db' written, db.append
        { drafts := (project.toList.map fun p => { payload := .projectUpserted p }) ++
            [{ threadId := some threadId, payload }]
          options := { commandId := some commandId, receipt := some receipt }, ts := at_ } = .ok (db', written) ∧
        db'.projection = q) ↔
      (withProject db.projection project).applyEvent (threadEvent threadId payload) = .ok q := by
  obtain ⟨m, projects, hm, hp⟩ := traceM_project db { commandId := some commandId, receipt := some receipt } at_
    project
  -- Neither kind of event reads its sequence or its time.
  have hstamp : m.projection.applyEvent (m.stamp { commandId := some commandId, receipt := some receipt } at_
      { threadId := some threadId, payload }) =
      (withProject db.projection project).applyEvent (threadEvent threadId payload) := by
    have hpayload : (m.stamp { commandId := some commandId, receipt := some receipt } at_
        { threadId := some threadId, payload }).payload = payload :=
      Db.payload_stamp_of_type_ne (by rcases htype with h | h <;> simp [h])
    have hthread := Db.threadId_stamp m { commandId := some commandId, receipt := some receipt } at_
      { threadId := some threadId, payload }
    rw [hp]
    unfold Projection.applyEvent
    rw [hpayload]
    cases payload <;> simp only [Payload.type, reduceCtorEq, or_self] at htype <;>
      simp only [threadEvent, Projection.rewriteThread, requireThreadId, hthread, hpayload]
  have htype' : payload.type ≠ .threadDeleted := by rcases htype with h | h <;> simp [h]
  constructor
  · rintro ⟨db', written, happ, rfl⟩
    obtain ⟨m', hall, hsame⟩ := Db.append_eq_ok happ
    obtain ⟨n, _, more, hn, hlast, -⟩ := Fold.traceM_append_eq_ok.mp hall
    obtain ⟨rfl, -⟩ := Prod.mk.inj (Except.ok.inj (hn.symm.trans hm))
    obtain ⟨m'', event, _, hwrite, hnil, -⟩ := Fold.traceM_cons_eq_ok.mp hlast
    cases hnil
    obtain ⟨rfl, happly, -⟩ := Db.writeDraft_projection hwrite
    rw [hsame.projection, ← happly, hstamp]
  · intro happly
    obtain ⟨m', hwrite, hq⟩ := Db.writeDraft_of_applyEvent htype' (hstamp.trans happly)
    have hlast := Fold.traceM_cons_eq_ok.mpr ⟨m', _, [], hwrite, Fold.traceM_nil _ m', rfl⟩
    have hall := Fold.traceM_append_eq_ok.mpr ⟨m, projects, _, hm, hlast, rfl⟩
    obtain ⟨db', happ⟩ := Db.append_receipted_ok hall hnew
    obtain ⟨m'', hall', hsame⟩ := Db.append_eq_ok happ
    obtain ⟨rfl, -⟩ := Prod.mk.inj (Except.ok.inj (hall'.symm.trans hall))
    exact ⟨db', _, happ, hsame.projection.trans hq⟩

/-! ### The thread event -/

variable {p : Projection} {project : Option Project}

theorem threads_withProject (p : Projection) (project : Option Project) :
    (withProject p project).threads = p.threads := by
  cases project <;> rfl

theorem has_withProject (p : Projection) (newProject : Option (Option String)) (created : SpawnReply) :
    (withProject p (newProject.map (projectFrom p created))).projects.has created.workspaceId = true ↔
      newProject.isSome = true ∨ p.projects.has created.workspaceId = true := by
  cases newProject with
  | none => simp [withProject]
  | some label =>
    refine iff_of_true ?_ (.inl rfl)
    have hid : (projectFrom p created label).id = created.workspaceId := by
      unfold projectFrom
      split
      · rename_i existing hfind
        exact Table.key_of_find? hfind
      · rfl
    change ((p.projects.set _).find? created.workspaceId).isSome = true
    rw [Table.find?_set, if_pos hid]
    rfl

theorem keyTaken_withProject {id paneId terminalId : String} :
    (withProject p project).KeyTaken id paneId terminalId ↔ p.KeyTaken id paneId terminalId := by
  unfold Projection.KeyTaken
  rw [threads_withProject]

theorem patched_spawn (seen : ServerThread) (fields : SpawnFields) (terminalId : Option String) (at_ : Int) :
    ∃ next, seen.patched (fields.patch terminalId) at_ = .ok next ∧ next.id = seen.id ∧ next.paneId = seen.paneId ∧
      next.shelf = seen.shelf ∧ next.terminalId = terminalId.getD seen.terminalId := by
  cases terminalId <;> exact ⟨_, rfl, rfl, rfl, rfl, rfl⟩

theorem apply_takeover (at_ : Int) (project : Option Project) (hsound : p.Sound) {seen : ServerThread}
    {created : CreatedShell}
    (hseen : seenThread p.listThreads created = some seen) (fields : SpawnFields) :
    let terminalId := if seen.terminalId = "" then created.terminalId.filter (· ≠ "") else none
    ((∃ q, (withProject p project).applyEvent (threadEvent seen.id (.threadUpdated (fields.patch terminalId) at_)) =
        .ok q) ↔
      (seen.terminalId = "" → created.terminalId.getD "" ≠ "" →
        ¬p.KeyTaken seen.id created.paneId (created.terminalId.getD ""))) ∧
      ∀ q, (withProject p project).applyEvent (threadEvent seen.id (.threadUpdated (fields.patch terminalId) at_)) =
        .ok q → ∃ t ∈ q.threads.rows, t.paneId = created.paneId ∧ t.shelf ≠ .archived := by
  intro terminalId
  have hmem : seen ∈ p.threads.rows := Projection.mem_listThreads.mp (List.mem_of_find?_eq_some hseen)
  have hfound := List.find?_some hseen
  simp only [Bool.and_eq_true, decide_eq_true_eq] at hfound
  obtain ⟨⟨hpane, hlive⟩, -⟩ := hfound
  obtain ⟨next, hnext, hid, hnextPane, hshelf, hterminal⟩ := patched_spawn seen fields terminalId at_
  have happly (q : Projection) : (withProject p project).applyEvent
      (threadEvent seen.id (.threadUpdated (fields.patch terminalId) at_)) = .ok q ↔
      ¬p.KeyTaken seen.id created.paneId next.terminalId ∧ q = { withProject p project with
        threads := (withProject p project).threads.set (threadParams next) } := by
    have htaken : (withProject p project).paneTaken next = false ↔
        ¬p.KeyTaken seen.id created.paneId next.terminalId := by
      rw [← Bool.not_eq_true, Projection.paneTaken_iff, keyTaken_withProject, hid, hnextPane, hpane]
    change (withProject p project).rewriteThread _ _ = .ok q ↔ _
    rw [Projection.rewriteThread_eq_ok]
    constructor
    · rintro ⟨threadId, thread, next', hthreadId, -, hfind, hnext', htaken', rfl⟩
      obtain rfl := Option.some.inj hthreadId
      rw [threads_withProject, Table.find?_key hmem] at hfind
      obtain rfl := Option.some.inj hfind
      obtain rfl := Except.ok.inj (hnext'.symm.trans hnext)
      exact ⟨htaken.mp htaken', rfl⟩
    · rintro ⟨hfree, rfl⟩
      refine ⟨seen.id, seen, next, rfl, hsound.named seen hmem, ?_, hnext, htaken.mpr hfree, rfl⟩
      rw [threads_withProject, Table.find?_key hmem]
  constructor
  · have hkey : ¬p.KeyTaken seen.id created.paneId next.terminalId ↔
        (seen.terminalId = "" → created.terminalId.getD "" ≠ "" →
          ¬p.KeyTaken seen.id created.paneId (created.terminalId.getD "")) := by
      have hown : ¬p.KeyTaken seen.id created.paneId seen.terminalId := by
        rintro ⟨t, ht, hother, hsame, hterminal⟩
        exact hother (congrArg _ (hsound.apart t ht seen hmem (hsame.trans hpane.symm) hterminal))
      rw [hterminal]
      by_cases hempty : seen.terminalId = ""
      · have hdef : terminalId = created.terminalId.filter (· ≠ "") := if_pos hempty
        by_cases hgiven : created.terminalId.getD "" = ""
        · have hnone : terminalId = none := by
            rw [hdef, Option.filter_eq_none_iff]
            intro given hcreated
            rw [hcreated] at hgiven
            simpa using hgiven
          rw [hnone]
          exact iff_of_true hown fun _ hne => absurd hgiven hne
        · obtain ⟨given, hcreated⟩ : ∃ given, created.terminalId = some given := by
            cases hcreated : created.terminalId with
            | none => exact absurd (by rw [hcreated]; rfl) hgiven
            | some given => exact ⟨given, rfl⟩
          rw [hcreated] at hgiven ⊢
          have hsome : terminalId = some given := by
            rw [hdef, hcreated, Option.filter_some_pos]
            simpa using hgiven
          rw [hsome]
          exact ⟨fun hfree _ _ => hfree, fun hfree => hfree hempty hgiven⟩
      · have hnone : terminalId = none := if_neg hempty
        rw [hnone]
        exact iff_of_true hown fun habsent => absurd habsent hempty
    rw [← hkey]
    exact ⟨fun ⟨q, hq⟩ => ((happly q).mp hq).1, fun hfree => ⟨_, (happly _).mpr ⟨hfree, rfl⟩⟩⟩
  · intro q hq
    obtain ⟨-, rfl⟩ := (happly q).mp hq
    refine ⟨threadParams next, Table.mem_set.mpr (.inl rfl), hnextPane.trans hpane, ?_⟩
    exact hshelf ▸ hlive

theorem apply_created (at_ : Int) (fields : SpawnFields) (created : SpawnReply) (newProject : Option (Option String))
    {newId : String} (hfresh : p.threads.find? newId = none) :
    let event := threadEvent newId (.threadCreated (spawnedThread fields created.toCreatedShell newId at_))
    let q := withProject p (newProject.map (projectFrom p created))
    ((∃ q', q.applyEvent event = .ok q') ↔ ¬p.KeyTaken newId created.paneId (created.terminalId.getD "") ∧
        (newProject.isSome = true ∨ p.projects.has created.workspaceId = true)) ∧
      ∀ q', q.applyEvent event = .ok q' → ∃ t ∈ q'.threads.rows, t.paneId = created.paneId ∧ t.shelf ≠ .archived := by
  intro event q
  have happly (q' : Projection) : q.applyEvent event = .ok q' ↔ ∃ threads,
      q.threads.insert? (threadParams (spawnedThread fields created.toCreatedShell newId at_)) = some threads ∧
      ¬p.KeyTaken newId created.paneId (created.terminalId.getD "") ∧
      (newProject.isSome = true ∨ p.projects.has created.workspaceId = true) ∧ q' = { q with threads } := by
    change q.insertThread _ = .ok q' ↔ _
    rw [Projection.insertThread_eq_ok]
    refine exists_congr fun threads => and_congr_right fun _ => and_congr ?_ (and_congr ?_ Iff.rfl)
    · rw [← Bool.not_eq_true, Projection.paneTaken_iff, keyTaken_withProject]
      rfl
    · exact has_withProject p newProject created
  have hfree : ∃ threads,
      q.threads.insert? (threadParams (spawnedThread fields created.toCreatedShell newId at_)) = some threads := by
    refine ⟨_, dif_neg fun hmem => ?_⟩
    obtain ⟨t, ht, hid⟩ := List.mem_map.mp hmem
    rw [threads_withProject] at ht
    exact Table.find?_eq_none_iff.mp hfresh t ht hid
  constructor
  · constructor
    · rintro ⟨q', hq'⟩
      obtain ⟨-, -, hkey, hproject, -⟩ := (happly q').mp hq'
      exact ⟨hkey, hproject⟩
    · rintro ⟨hkey, hproject⟩
      obtain ⟨threads, hinsert⟩ := hfree
      exact ⟨_, (happly _).mpr ⟨threads, hinsert, hkey, hproject, rfl⟩⟩
  · intro q' hq'
    obtain ⟨threads, hinsert, -, -, rfl⟩ := (happly q').mp hq'
    refine ⟨threadParams (spawnedThread fields created.toCreatedShell newId at_), ?_, rfl, ?_⟩
    · rw [Table.rows_of_insert? hinsert]
      exact List.mem_append_right _ (List.mem_singleton_self _)
    · exact Shelf.noConfusion

/-! ### The result -/

theorem keepsPane_iff {newProject : Option (Option String)} {fields : SpawnFields} {created : SpawnReply}
    {newId threadId : String} {payload : ServerPayload} (hnew : db.receipts.find? commandId = none)
    (htype : payload.type = .threadCreated ∨ payload.type = .threadUpdated)
    (hspawn : spawnEvents db.projection.listThreads (newProject.map (projectFrom db.projection created)) fields
      created.toCreatedShell newId at_ = (threadId, ((newProject.map (projectFrom db.projection created)).toList.map
          fun p => { payload := .projectUpserted p }) ++ [{ threadId := some threadId, payload }]))
    (hlive : ∀ q, (withProject db.projection (newProject.map (projectFrom db.projection created))).applyEvent
      (threadEvent threadId payload) = .ok q →
        ∃ t ∈ q.threads.rows, t.paneId = created.paneId ∧ t.shelf ≠ .archived) :
    KeepsPane db commandId (some created)
        (threadCreate db newProject fields (some created) newId commandId receipt at_) ↔
      ∃ q, (withProject db.projection (newProject.map (projectFrom db.projection created))).applyEvent
        (threadEvent threadId payload) = .ok q := by
  have happend := append_spawn_iff receipt at_ (newProject.map (projectFrom db.projection created)) threadId
    htype hnew
  simp only [threadCreate, hspawn]
  split
  · rename_i e hrefused
    refine iff_of_false ?_ ?_
    · rintro ⟨⟨_, hok⟩, -⟩
      cases hok
    · rintro ⟨q, hq⟩
      obtain ⟨db', written, happ, -⟩ := (happend q).mpr hq
      rw [hrefused] at happ
      cases happ
  · rename_i db' written happ
    have hq := (happend db'.projection).mp ⟨db', written, happ, rfl⟩
    exact iff_of_true ⟨⟨threadId, rfl⟩, hlive _ hq, Db.append_receipt_isSome happ rfl rfl⟩ ⟨_, hq⟩

/-- In every state of the bridge, for every reply of herdr: a pane that was made has a live thread and the command a
receipt exactly when no other thread, archived ones included, has the key its thread gets and, without a new project,
the workspace of a new thread is a stored project; when no pane was made, nothing changed. -/
theorem threadCreate_keepsPane_iff {w : HerdWorld} (hrun : (HerdWorld.boot .new).NamedRun w)
    (newProject : Option (Option String)) (fields : SpawnFields) (reply : Option SpawnReply)
    {newId commandId : String} (receipt : String × Option String) (at_ : Int)
    (hid : w.projection.threads.find? newId = none) (hnew : w.ledger.db.receipts.find? commandId = none) :
    KeepsPane w.ledger.db commandId reply
        (threadCreate w.ledger.db newProject fields reply newId commandId receipt at_) ↔
      ∀ created ∈ reply, w.projection.SpawnFits newProject.isSome created.toCreatedShell newId := by
  cases reply with
  | none => exact iff_of_true rfl fun _ h => by cases h
  | some created =>
    have hsound := HerdWorld.sound_of_run hrun
    have hone : (∀ c ∈ some created, w.projection.SpawnFits newProject.isSome c.toCreatedShell newId) ↔
        w.projection.SpawnFits newProject.isSome created.toCreatedShell newId :=
      ⟨fun h => h created rfl, fun h c hc => Option.some.inj hc ▸ h⟩
    rw [hone, Projection.SpawnFits]
    cases hseen : seenThread w.projection.listThreads created.toCreatedShell with
    | some seen =>
      obtain ⟨happly, hlive⟩ := apply_takeover at_
        (newProject.map (projectFrom w.projection created)) hsound hseen fields
      refine (keepsPane_iff hnew (.inr rfl) ?_ hlive).trans happly
      unfold spawnEvents
      rw [show w.ledger.db.projection = w.projection from rfl, hseen]
    | none =>
      obtain ⟨happly, hlive⟩ := apply_created at_ fields created newProject hid
      refine (keepsPane_iff hnew (.inl rfl) ?_ hlive).trans happly
      unfold spawnEvents
      rw [show w.ledger.db.projection = w.projection from rfl, hseen]

/-! ### A pane id that comes back -/

private def shellFields : SpawnFields where
  title := "claude-1"
  titleSource := .herd
  harness := "claude"
  status := .starting
  capabilities := noCapabilities

/-- A tab's pane, in a reply that has no terminal id. -/
private def bareReply (paneId : String) : SpawnReply where
  paneId := paneId
  workspaceId := "w1"

/-- The step's ids are not empty, and it is no reconcile. -/
private def plainAction : HerdWorld.Action → Bool
  | .spawn _ _ _ newId _ _ => newId ≠ ""
  | .reconcile .. => false
  | _ => true

theorem namedRun_of_exec (actions : List HerdWorld.Action) (pred : HerdWorld → Bool)
    (h : (Runs.exec HerdWorld.step (fun _ a => plainAction a = true) (.boot .new) actions).any pred = true) :
    ∃ w, (HerdWorld.boot .new).NamedRun w ∧ pred w = true := by
  obtain ⟨w, hrun, hw⟩ := Runs.exists_run_of_exec h
  refine ⟨w, hrun.imp fun _ a ha => ?_, hw⟩
  cases a with
  | reconcile => cases ha
  | spawn _ _ _ newId _ _ => exact (of_decide_eq_true ha : newId ≠ "")
  | _ => trivial

/-- An agent is started in a new workspace, and its thread archived. -/
private def archivedSpawn : List HerdWorld.Action :=
  [.spawn (some (testProject "w1")) shellFields (bareReply "w1:p1").toCreatedShell "t1" {} 1000,
    .command (.archive "t1") true {} 2000]

/-- The store has no receipt of the command, and the new id is free. -/
private def freshFor (commandId newId : String) (w : HerdWorld) : Bool :=
  (w.ledger.db.receipts.find? commandId).isNone && (w.projection.threads.find? newId).isNone

/-- A pane that no thread had gets its thread in the project that is there. -/
theorem threadCreate_keepsPane_iff_free : ∃ w : HerdWorld, (HerdWorld.boot .new).NamedRun w ∧
    KeepsPane w.ledger.db "c1" (some (bareReply "w1:p2"))
      (threadCreate w.ledger.db none shellFields (some (bareReply "w1:p2")) "t2" "c1" ("thread.create", none)
        3000) := by
  obtain ⟨w, hrun, hw⟩ := namedRun_of_exec archivedSpawn (fun w =>
      freshFor "c1" "t2" w && (seenThread w.projection.listThreads (bareReply "w1:p2").toCreatedShell).isNone &&
        w.projection.threads.rows.all (·.paneId ≠ "w1:p2") && w.projection.projects.has "w1") (by decide +kernel)
  simp only [freshFor, Bool.and_eq_true, Option.isNone_iff_eq_none, List.all_eq_true, decide_eq_true_eq] at hw
  obtain ⟨⟨⟨⟨hnew, hid⟩, hseen⟩, hfree⟩, hproject⟩ := hw
  refine ⟨w, hrun, (threadCreate_keepsPane_iff hrun none _ _ _ _ hid hnew).mpr fun created hcreated => ?_⟩
  obtain rfl := Option.some.inj hcreated
  rw [Projection.SpawnFits, hseen]
  refine ⟨?_, .inr hproject⟩
  rintro ⟨t, ht, _, hpane, _⟩
  exact hfree t ht hpane

/-- A pane id comes back in a reply without a terminal id: the archived thread of that pane has the key, the store
refuses the batch, and the pane has no thread and the command no receipt. -/
theorem threadCreate_loses_pane : ¬∀ (w : HerdWorld), (HerdWorld.boot .new).NamedRun w →
      ∀ newProject fields reply newId commandId receipt at_, w.projection.threads.find? newId = none →
        w.ledger.db.receipts.find? commandId = none → KeepsPane w.ledger.db commandId reply
            (threadCreate w.ledger.db newProject fields reply newId commandId receipt at_) := by
  intro h
  obtain ⟨w, hrun, hw⟩ := namedRun_of_exec archivedSpawn (fun w => freshFor "c1" "t2" w &&
      match threadCreate w.ledger.db none shellFields (some (bareReply "w1:p1")) "t2" "c1"
        ("thread.create", none) 3000 with
      | (_, .threw _) => true
      | _ => false) (by decide +kernel)
  simp only [freshFor, Bool.and_eq_true, Option.isNone_iff_eq_none] at hw
  obtain ⟨⟨hnew, hid⟩, hthrew⟩ := hw
  obtain ⟨⟨threadId, hok⟩, -⟩ := h w hrun none shellFields (some (bareReply "w1:p1")) "t2" "c1"
    ("thread.create", none)
    3000 hid hnew
  revert hthrew
  cases hresult : threadCreate w.ledger.db none shellFields (some (bareReply "w1:p1")) "t2" "c1"
      ("thread.create", none) 3000 with
  | mk db' outcome =>
    rw [hresult] at hok
    simp only at hok
    rw [hok]
    exact Bool.false_ne_true

end Sightr
