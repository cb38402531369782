import Sightr.Client.Wire
import Sightr.Herd.Drafts

/-!
# A thread's shelf and its fields

A snoozed thread has a time to come back at, a pinned one a time it was pinned at, a settled one a time it
was settled at, and an archived one a time and a reason; no thread has the fields of a shelf it is not on.
Only two event types write these fields, and their writers never ask for a shelf without its fields. What
the browser makes of the same events keeps the rule too.
-/

namespace Sightr

open Keyed (Table)

/-! ### The rule -/

/-- The fields that belong to a shelf are there exactly on that shelf. -/
@[mk_iff] structure ThreadOf.Shelved {Ref : Type} (thread : ThreadOf Ref) : Prop where
  snoozedUntil : thread.snoozedUntil.isSome = true ↔ thread.shelf = .snoozed
  pinnedAt : thread.pinnedAt.isSome = true ↔ thread.shelf = .pinned
  pinOrder : thread.pinOrder.isSome = true → thread.shelf = .pinned
  settledAt : thread.settledAt.isSome = true ↔ thread.shelf = .settled
  archivedAt : thread.archivedAt.isSome = true ↔ thread.shelf = .archived
  archiveReason : thread.archiveReason.isSome = true ↔ thread.shelf = .archived

/-- A shelf move says when a snoozed thread comes back, and archives nothing; a new thread follows the
rule. -/
def Payload.KeepsShelf {Ref Bound Extra : Type} : Payload Ref Bound Extra → Prop
  | .threadCreated thread => thread.Shelved
  | .threadShelfChanged shelf snoozedUntil _ _ =>
    shelf ≠ .archived ∧ (shelf = .snoozed → snoozedUntil.isSome = true)
  | _ => True

namespace ThreadOf

variable {Ref : Type}

def shelfFields (thread : ThreadOf Ref) :
    Shelf × Option Int × Option Int × Option Rat × Option Int × Option Int × Option ArchiveReason :=
  (thread.shelf, thread.snoozedUntil, thread.pinnedAt, thread.pinOrder, thread.settledAt,
    thread.archivedAt, thread.archiveReason)

theorem Shelved.of_fields {Ref' : Type} {thread : ThreadOf Ref} {next : ThreadOf Ref'}
    (h : thread.Shelved) (hfields : next.shelfFields = thread.shelfFields) : next.Shelved := by
  simp only [shelfFields, Prod.mk.injEq] at hfields
  obtain ⟨hshelf, hsnoozed, hpinned, horder, hsettled, harchived, hreason⟩ := hfields
  rw [shelved_iff, hshelf, hsnoozed, hpinned, horder, hsettled, harchived, hreason, ← shelved_iff]
  exact h

theorem reshelved_shelved (thread : ThreadOf Ref) {shelf : Shelf} {snoozedUntil : Option Int}
    (pinOrder : Option Rat) (at_ : Int) (hshelf : shelf ≠ .archived)
    (hsnoozed : shelf = .snoozed → snoozedUntil.isSome = true) :
    (thread.reshelved shelf snoozedUntil pinOrder at_).Shelved := by
  cases shelf with
  | archived => exact absurd rfl hshelf
  | snoozed => constructor <;> simp [reshelved, hsnoozed]
  | active | pinned | settled => constructor <;> simp [reshelved]

theorem archived_shelved (thread : ThreadOf Ref) (reason : ArchiveReason) (at_ : Int) :
    (thread.archived reason at_).Shelved := by
  constructor <;> simp [archived]

end ThreadOf

/-! ### The store's threads -/

@[simp] theorem shelfFields_threadParams (thread : ServerThread) :
    (threadParams thread).shelfFields = thread.shelfFields := rfl

@[simp] theorem shelfFields_toWireThread (thread : ServerThread) :
    (toWireThread thread).shelfFields = thread.shelfFields := rfl

theorem ServerThread.shelfFields_patched {thread next : ServerThread} {patch : ServerThreadPatch}
    {at_ : Int} (h : thread.patched patch at_ = .ok next) : next.shelfFields = thread.shelfFields := by
  unfold ServerThread.patched at h
  simp only [Except.bind_eq_ok] at h
  obtain ⟨_, -, _, -, _, -, _, -, _, -, _, -, _, -, h⟩ := h
  cases h
  rfl

theorem ServerPayload.Rewrites.next_shelved {payload : ServerPayload} {thread next : ServerThread}
    (h : ServerPayload.Rewrites payload thread next) (hkeeps : payload.KeepsShelf)
    (hthread : thread.Shelved) : (threadParams next).Shelved := by
  refine ThreadOf.Shelved.of_fields ?_ (shelfFields_threadParams next)
  cases h with
  | patched hnext => exact hthread.of_fields (ServerThread.shelfFields_patched hnext)
  | reshelved shelf snoozedUntil pinOrder at_ =>
    exact thread.reshelved_shelved pinOrder at_ hkeeps.1 hkeeps.2
  | archived reason at_ => exact thread.archived_shelved reason at_

/-! ### The browser's threads -/

namespace Client

theorem patchThread_shelved {thread next : Thread} {event : ThreadEvent}
    (hkeeps : event.payload.KeepsShelf) (hthread : thread.Shelved)
    (h : patchThread thread event = some next) : next.Shelved := by
  unfold patchThread at h
  split at h
  · cases h
    exact hthread.of_fields rfl
  · rename_i hpay
    rw [hpay] at hkeeps
    cases h
    exact thread.reshelved_shelved _ _ hkeeps.1 hkeeps.2
  · cases h
    exact thread.archived_shelved _ _
  · cases h

/-- The thread that `patchThread` builds from events; one it does not know leaves the thread alone. -/
def patchThreads (thread : Thread) (events : List ThreadEvent) : Thread :=
  events.foldl (fun thread event => (patchThread thread event).getD thread) thread

theorem patchThreads_shelved {thread : Thread} {events : List ThreadEvent}
    (hkeeps : ∀ event ∈ events, event.payload.KeepsShelf) (hthread : thread.Shelved) :
    (patchThreads thread events).Shelved := by
  unfold patchThreads
  refine List.foldlRecOn events _ hthread fun thread hthread event hevent => ?_
  cases hnext : patchThread thread event with
  | none => exact hthread
  | some next => exact patchThread_shelved (hkeeps event hevent) hthread hnext

end Client

theorem StoredEvent.keepsShelf_frame (event : StoredEvent) :
    event.frame.payload.KeepsShelf ↔ event.payload.KeepsShelf := by
  rw [payload_frame]
  cases hpay : event.payload with
  | threadCreated thread =>
    exact ⟨fun h => h.of_fields (shelfFields_toWireThread thread).symm,
      fun h => h.of_fields (shelfFields_toWireThread thread)⟩
  | _ => rfl

/-! ### The writers -/

theorem createdThread_shelved (ctx : HerdDiffContext) (pane : AgentView) (id : String) :
    (createdThread ctx pane id).Shelved := by
  constructor <;> simp [createdThread]

theorem spawnedThread_shelved (fields : SpawnFields) (created : CreatedShell) (id : String) (at_ : Int) :
    (spawnedThread fields created id at_).Shelved := by
  constructor <;> simp [spawnedThread]

theorem PlainDraft.keepsShelf {draft : EventDraft} (h : PlainDraft draft) : draft.payload.KeepsShelf := by
  unfold PlainDraft at h
  cases hpay : draft.payload with
  | threadCreated => simp only [hpay] at h
  | threadShelfChanged shelf snoozedUntil pinOrder at_ =>
    simp only [hpay] at h
    exact h
  | _ => trivial

theorem HerdDraft.keepsShelf {ctx : HerdDiffContext} {draft : EventDraft} (h : HerdDraft ctx draft) :
    draft.payload.KeepsShelf := by
  unfold HerdDraft at h
  cases hpay : draft.payload with
  | threadCreated thread =>
    simp only [hpay] at h
    obtain ⟨pane, i, rfl⟩ := h
    exact createdThread_shelved ctx pane (ctx.newId i)
  | threadShelfChanged shelf snoozedUntil pinOrder at_ =>
    simp only [hpay] at h
    subst h
    exact ⟨by simp, by simp⟩
  | _ => trivial

/-- No writer moves a thread to a shelf without its fields, or makes one that breaks the rule. -/
theorem HerdWorld.drafts_keepsShelf {w w' : HerdWorld} {a : Action} (h : w.step a = some w') :
    ∀ draft ∈ w.drafts a, draft.payload.KeepsShelf := by
  cases a with
  | reconcile snap ctx ts => exact fun draft hdraft => (diffHerd_drafts draft hdraft).keepsShelf
  | spawn newProject fields created newId options at_ =>
    intro draft hdraft
    simp only [drafts] at hdraft
    obtain ⟨projects, hprojects, ⟨seen, terminalId, -, hspawn⟩ | ⟨-, hspawn⟩⟩ :=
      spawnEvents_eq w.projection.listThreads newProject fields created newId at_
    all_goals
      rw [hspawn, List.mem_append, List.mem_singleton] at hdraft
      rcases hdraft with hdraft | rfl
      · exact (hprojects draft hdraft).keepsShelf
    · trivial
    · exact spawnedThread_shelved fields created newId at_
  | _ => exact fun draft hdraft => (drafts_plain h (by simp) (by simp) draft hdraft).keepsShelf

/-! ### Runs -/

namespace HerdWorld

/-- Every stored thread follows the rule, and every event that was written says what it asks. -/
@[mk_iff] structure AllShelved (w : HerdWorld) : Prop where
  threads : ∀ thread ∈ w.projection.threads.rows, thread.Shelved
  written : ∀ event ∈ w.ledger.written, event.payload.KeepsShelf

theorem AllShelved.boot : (boot .new).AllShelved where
  threads := by simp [HerdWorld.boot, projection, Ledger.new, Db.empty, Projection.empty]
  written := by simp [HerdWorld.boot, Ledger.new]

theorem keepsShelf_stamp {db : Db} {options : AppendOptions} {ts : Int} {raw : EventDraft}
    (h : raw.payload.KeepsShelf) : (db.stamp options ts raw).payload.KeepsShelf := by
  by_cases htype : (db.stamp options ts raw).payload.type = .turnItemUpdated
  · cases hpay : (db.stamp options ts raw).payload <;> simp [hpay, Payload.type] at htype
    trivial
  · rwa [Db.threadPayload_stamp htype]

theorem AllShelved.step {w w' : HerdWorld} {a : Action} (hw : w.AllShelved) (h : w.step a = some w') :
    w'.AllShelved := by
  have hkeeps := drafts_keepsShelf h
  cases step_store h with
  | same hledger =>
    refine ⟨?_, ?_⟩
    · rw [projection, hledger]
      exact hw.threads
    · rw [hledger]
      exact hw.written
  | batch batch hdrafts hstep =>
    obtain ⟨db, written, happ, hledger⟩ := Ledger.step_append_eq_some.mp hstep
    rw [← hdrafts] at hkeeps
    refine ⟨?_, ?_⟩
    · rw [projection, hledger]
      refine Db.threads_append hw.threads (fun raw hraw thread hpay => ?_)
        (fun raw hraw thread next _ hnext hthread => hnext.next_shelved (hkeeps raw hraw) hthread) happ
      have hthread := hkeeps raw hraw
      rw [hpay] at hthread
      exact hthread.of_fields (shelfFields_threadParams thread)
    · rw [hledger]
      refine List.forall_mem_append.mpr ⟨hw.written, ?_⟩
      exact Db.written_append (fun raw hraw db => keepsShelf_stamp (hkeeps raw hraw)) happ
  | pruned at_ ha hstep =>
    have hledger : w'.ledger = { w.ledger with db := (w.ledger.db.prune at_).1 } := (Option.some.inj hstep).symm
    refine ⟨fun thread hthread => hw.threads thread ?_, hledger ▸ hw.written⟩
    simp only [projection, hledger, Db.prune] at hthread
    rw [Projection.threads_prune, Table.rows_filter] at hthread
    exact List.mem_of_mem_filter hthread

theorem AllShelved.reaches {w w' : HerdWorld} (hw : w.AllShelved) (h : w.Reaches w') : w'.AllShelved :=
  h.invariant (fun _ _ _ hm _ hstep => hm.step hstep) hw

/-- What a client may start from: a thread of an earlier snapshot, or one that a frame made. -/
def Starts (m w : HerdWorld) (mine : Thread) : Prop :=
  mine ∈ m.ledger.db.snapshotShell.threads ∨ ∃ event ∈ w.ledger.written, event.frame.payload = .threadCreated mine

theorem shelved_of_starts {m w : HerdWorld} {mine : Thread} (hm : m.AllShelved)
    (hw : w.AllShelved) (h : Starts m w mine) : mine.Shelved := by
  rcases h with hmine | ⟨event, hevent, hpay⟩
  · obtain ⟨thread, hthread, rfl⟩ := List.mem_map.mp hmine
    have hmem := (List.perm_insertionSort _ _).mem_iff.mp hthread
    exact (hm.threads thread hmem).of_fields (shelfFields_toWireThread thread)
  · have hkeeps := (StoredEvent.keepsShelf_frame event).mpr (hw.written event hevent)
    rwa [hpay] at hkeeps

/-- In every run every stored thread has the fields of its shelf and of no other, and so has every thread
that `patchThread` builds from what the run wrote. -/
theorem shelved {m w : HerdWorld} (hm : (boot .new).Reaches m) (hw : m.Reaches w) :
    (∀ thread ∈ w.projection.threads.rows, thread.Shelved) ∧
      ∀ mine, Starts m w mine → ∀ events : List StoredEvent, (∀ event ∈ events, event ∈ w.ledger.written) →
        (Client.patchThreads mine (events.map (·.frame))).Shelved := by
  have hearlier : m.AllShelved := AllShelved.boot.reaches hm
  have hlater : w.AllShelved := hearlier.reaches hw
  refine ⟨hlater.threads, fun mine hmine events hevents => ?_⟩
  refine Client.patchThreads_shelved (fun frame hframe => ?_) (shelved_of_starts hearlier hlater hmine)
  obtain ⟨event, hevent, rfl⟩ := List.mem_map.mp hframe
  exact (StoredEvent.keepsShelf_frame event).mpr (hlater.written event (hevents event hevent))

def snoozeAgent : Action := .command (.snooze "t1" (some 5000)) true {} 2000

/-- A thread that is made and snoozed has the time it comes back at. -/
theorem shelved_snoozed : ∃ w : HerdWorld, (∃ thread ∈ w.projection.threads.rows, thread.shelf = .snoozed) ∧
      ∀ thread ∈ w.projection.threads.rows, thread.Shelved := by
  have hrun : (Runs.exec step (fun _ _ => True) (boot .new) [spawnAgent, snoozeAgent]).any
      (fun w => w.projection.threads.rows.any (·.shelf = .snoozed)) = true := by decide
  obtain ⟨w, hw, hsnoozed⟩ := Runs.exists_run_of_exec hrun
  exact ⟨w, by simpa using hsnoozed, (shelved .refl hw).1⟩

end HerdWorld

end Sightr
