import Sightr.Store.Prune

/-!
# What an event does to the threads

Five event types write the `threads` table: one adds a row, three rewrite the row that the event names,
and one removes it. Every other event leaves the table alone. A fact about single threads that the five
preserve therefore holds of every stored thread.
-/

namespace Sightr

open Keyed (Table)

/-! ### One event -/

/-- What a payload makes of the thread its event names. -/
inductive ServerPayload.Rewrites : ServerPayload → ServerThread → ServerThread → Prop
  | patched {patch : ServerThreadPatch} {at_ : Int} {thread next : ServerThread}
      (h : thread.patched patch at_ = .ok next) : Rewrites (.threadUpdated patch at_) thread next
  | reshelved (shelf : Shelf) (snoozedUntil : Option Int) (pinOrder : Option Rat) (at_ : Int)
      (thread : ServerThread) :
      Rewrites (.threadShelfChanged shelf snoozedUntil pinOrder at_) thread
        (thread.reshelved shelf snoozedUntil pinOrder at_)
  | archived (reason : ArchiveReason) (at_ : Int) (thread : ServerThread) :
      Rewrites (.threadArchived reason at_) thread (thread.archived reason at_)

variable {payload : ServerPayload} {thread next : ServerThread}

theorem ServerPayload.Rewrites.type_ne (h : ServerPayload.Rewrites payload thread next) :
    payload.type ≠ .turnItemUpdated := by
  cases h <;> simp [Payload.type]

theorem ServerThread.status_patched {patch : ServerThreadPatch} {at_ : Int} (h : thread.patched patch at_ = .ok next) :
    next.id = thread.id ∧ (patch.status = .absent ∧ next.status = thread.status ∨
      patch.status = .val next.status) := by
  unfold ServerThread.patched at h
  simp only [Except.bind_eq_ok] at h
  obtain ⟨_, -, _, -, _, -, status, hstatus, _, -, _, -, _, -, h⟩ := h
  cases h
  refine ⟨rfl, ?_⟩
  cases hfield : patch.status with
  | absent =>
    rw [hfield] at hstatus
    exact .inl ⟨rfl, (Except.ok.inj hstatus).symm⟩
  | undef =>
    rw [hfield] at hstatus
    cases hstatus
  | val s =>
    rw [hfield] at hstatus
    exact .inr (by rw [Except.ok.inj hstatus])

theorem ServerPayload.Rewrites.id_eq (h : ServerPayload.Rewrites payload thread next) : next.id = thread.id := by
  cases h with
  | patched hnext => exact (ServerThread.status_patched hnext).1
  | reshelved | archived => rfl

namespace Projection

/-- What an accepted event does to the `threads` table. -/
inductive ThreadsChange (p p' : Projection) (event : StoredEvent) : Prop
  | same (hthreads : p'.threads = p.threads)
  | created (thread : ServerThread) (hpay : event.payload = .threadCreated thread)
      (hinsert : p.threads.insert? (threadParams thread) = some p'.threads)
      (hpane : p.paneTaken thread = false)
  | rewritten (threadId : String) (thread next : ServerThread) (hid : event.threadId = some threadId)
      (hfind : p.threads.find? threadId = some thread)
      (hnext : ServerPayload.Rewrites event.payload thread next) (hpane : p.paneTaken next = false)
      (hthreads : p'.threads = p.threads.set (threadParams next))
  | deleted (threadId : String) (hid : event.threadId = some threadId) (hpay : event.payload.type = .threadDeleted)
      (hthreads : p'.threads = p.threads.filter (·.id ≠ threadId))

variable {p p' : Projection} {event : StoredEvent}

/-- An accepted event leaves the threads alone, adds one, rewrites the one it names or removes it. -/
theorem threadsChange_of_applyEvent (h : p.applyEvent event = .ok p') : p.ThreadsChange p' event := by
  cases applied_of_applyEvent h with
  | threadCreated hpay hinsert hpane => exact .created _ hpay hinsert hpane
  | threadUpdated hpay hid _ hfind hnext hpane =>
    exact .rewritten _ _ _ hid hfind (hpay ▸ .patched hnext) hpane rfl
  | threadShelfChanged hpay hid _ hfind hpane =>
    exact .rewritten _ _ _ hid hfind (hpay ▸ .reshelved ..) hpane rfl
  | threadArchived hpay hid _ hfind hpane => exact .rewritten _ _ _ hid hfind (hpay ▸ .archived ..) hpane rfl
  | threadDeleted hpay hid => exact .deleted _ hid (by rw [hpay]; rfl) rfl
  | _ => exact .same rfl

/-- A fact about threads that the event's new or rewritten thread has, all of them keep. -/
theorem threads_applyEvent {P : ServerThread → Prop} (hp : ∀ t ∈ p.threads.rows, P t)
    (h : p.applyEvent event = .ok p')
    (hcreate : ∀ thread, event.payload = .threadCreated thread → P (threadParams thread))
    (hrewrite : ∀ thread next, event.threadId = some thread.id → thread ∈ p.threads.rows →
      ServerPayload.Rewrites event.payload thread next → P thread → P (threadParams next)) :
    ∀ t ∈ p'.threads.rows, P t := by
  cases threadsChange_of_applyEvent h with
  | same hthreads => rwa [hthreads]
  | created thread hpay hinsert hpane =>
    intro t ht
    rw [Table.rows_of_insert? hinsert, List.mem_append, List.mem_singleton] at ht
    rcases ht with ht | rfl
    · exact hp t ht
    · exact hcreate thread hpay
  | rewritten threadId thread next hid hfind hnext hpane hthreads =>
    intro t ht
    obtain ⟨hmem, rfl⟩ := Table.find?_eq_some_iff.mp hfind
    rw [hthreads] at ht
    rcases Table.mem_set.mp ht with rfl | ⟨ht, -⟩
    · exact hrewrite thread next hid hmem hnext (hp thread hmem)
    · exact hp t ht
  | deleted threadId hid hpay hthreads =>
    intro t ht
    rw [hthreads, Table.rows_filter] at ht
    exact hp t (List.mem_of_mem_filter ht)

def PanesApart (p : Projection) : Prop :=
  ∀ t ∈ p.threads.rows, ∀ s ∈ p.threads.rows, t.paneId = s.paneId → t.terminalId = s.terminalId → t = s

theorem PanesApart.empty : PanesApart empty := by
  intro t ht
  cases ht

theorem PanesApart.of_subset (h : p.PanesApart) (hsub : ∀ t ∈ p'.threads.rows, t ∈ p.threads.rows) : p'.PanesApart :=
  fun t ht s hs => h t (hsub t ht) s (hsub s hs)

theorem PanesApart.of_written {next : ServerThread} (h : p.PanesApart) (hpane : p.paneTaken next = false)
    (hrows : ∀ t ∈ p'.threads.rows, t = threadParams next ∨ t ∈ p.threads.rows ∧ t.id ≠ next.id) :
    p'.PanesApart := by
  have hfree : ∀ t ∈ p.threads.rows, t.id ≠ next.id → t.paneId = next.paneId → t.terminalId ≠ next.terminalId := by
    intro t ht hid hsame hterminal
    have hnone := List.any_eq_false.mp hpane t ht
    simp [hid, hsame, hterminal] at hnone
  intro t ht s hs hsame hterminal
  rcases hrows t ht with rfl | ⟨ht, htid⟩ <;> rcases hrows s hs with rfl | ⟨hs, hsid⟩
  · rfl
  · exact absurd hterminal.symm (hfree s hs hsid hsame.symm)
  · exact absurd hterminal (hfree t ht htid hsame)
  · exact h t ht s hs hsame hterminal

theorem PanesApart.applyEvent (h : p.PanesApart) (happ : p.applyEvent event = .ok p') : p'.PanesApart := by
  cases threadsChange_of_applyEvent happ with
  | same hthreads => exact h.of_subset fun t ht => hthreads ▸ ht
  | created thread hpay hinsert hpane =>
    refine h.of_written hpane fun t ht => ?_
    obtain ⟨hnew, hrows⟩ := Table.insert?_eq_some_iff.mp hinsert
    rw [hrows, List.mem_append, List.mem_singleton] at ht
    rcases ht with ht | rfl
    · exact .inr ⟨ht, fun hid => hnew (List.mem_map.mpr ⟨t, ht, hid⟩)⟩
    · exact .inl rfl
  | rewritten threadId thread next hid hfind hnext hpane hthreads =>
    refine h.of_written hpane fun t ht => ?_
    rw [hthreads] at ht
    exact Table.mem_set.mp ht
  | deleted threadId hid hpay hthreads =>
    refine h.of_subset fun t ht => ?_
    rw [hthreads, Table.rows_filter] at ht
    exact List.mem_of_mem_filter ht

theorem threads_prune (p : Projection) (at_ : Int) :
    (p.prune at_).threads = p.threads.filter (·.id ∉ p.expiredThreads at_) := by
  rw [prune, (foldl_deleteThread_eq _ _).1, foldl_pruneItems_eq]

end Projection

/-! ### Batches and prunes -/

variable {db : Db} {options : AppendOptions} {ts : Int}

/-- What a draft's payload says of the threads, its event says: only an item is completed before it is
written. -/
theorem Db.threadPayload_stamp {raw : EventDraft} (h : (db.stamp options ts raw).payload.type ≠ .turnItemUpdated) :
    (db.stamp options ts raw).payload = raw.payload := by
  rw [type_stamp] at h
  exact payload_stamp_of_type_ne h

variable {db' : Db} {written : List StoredEvent} {P : ServerThread → Prop}

theorem Db.threads_traceM {drafts : List EventDraft} (hdb : ∀ t ∈ db.projection.threads.rows, P t)
    (hcreate : ∀ raw ∈ drafts, ∀ thread, raw.payload = .threadCreated thread → P (threadParams thread))
    (hrewrite : ∀ raw ∈ drafts, ∀ thread next, raw.threadId = some thread.id →
      ServerPayload.Rewrites raw.payload thread next → P thread → P (threadParams next))
    (h : Fold.traceM (writeDraft options ts) db drafts = .ok (db', written)) :
    ∀ t ∈ db'.projection.threads.rows, P t := by
  refine Fold.traceM_invariant (P := fun (db : Db) _ => ∀ t ∈ db.projection.threads.rows, P t)
    (C := fun _ raw => raw ∈ drafts) (w := []) ?_ hdb
    (Fold.along_of_forall fun _ _ hraw => hraw) h
  intro s _ raw s' event hs hraw hwrite
  obtain ⟨rfl, happ, -, -⟩ := writeDraft_projection hwrite
  refine Projection.threads_applyEvent hs happ (fun thread hpay => ?_)
    fun thread next hid _ hnext hthread => ?_
  · rw [threadPayload_stamp (by rw [hpay]; simp [Payload.type])] at hpay
    exact hcreate raw hraw thread hpay
  · rw [threadPayload_stamp hnext.type_ne] at hnext
    rw [threadId_stamp] at hid
    exact hrewrite raw hraw thread next hid hnext hthread

variable {batch : Batch}

/-- A fact about threads that every new or rewritten thread of the batch has, all of them keep. -/
theorem Db.threads_append (hdb : ∀ t ∈ db.projection.threads.rows, P t)
    (hcreate : ∀ raw ∈ batch.drafts, ∀ thread, raw.payload = .threadCreated thread → P (threadParams thread))
    (hrewrite : ∀ raw ∈ batch.drafts, ∀ thread next, raw.threadId = some thread.id →
      ServerPayload.Rewrites raw.payload thread next → P thread → P (threadParams next))
    (h : db.append batch = .ok (db', written)) : ∀ t ∈ db'.projection.threads.rows, P t := by
  obtain ⟨m, hm, hsame⟩ := append_eq_ok h
  rw [hsame.projection]
  exact threads_traceM hdb hcreate hrewrite hm

theorem Db.projection_append {I : Projection → Prop}
    (hI : ∀ (p p' : Projection) (event : StoredEvent), I p → p.applyEvent event = .ok p' → I p')
    (hdb : I db.projection) (h : db.append batch = .ok (db', written)) : I db'.projection := by
  obtain ⟨m, hm, hsame⟩ := append_eq_ok h
  rw [hsame.projection]
  refine Fold.traceM_invariant (P := fun (db : Db) _ => I db.projection) (C := fun _ _ => True) (w := [])
    ?_ hdb (Fold.along_of_forall fun _ _ _ => trivial) hm
  intro s sofar raw s' event hs _ hwrite
  obtain ⟨-, happ, -⟩ := writeDraft_projection hwrite
  exact hI _ _ event hs happ

theorem Db.written_append {Q : StoredEvent → Prop}
    (hQ : ∀ raw ∈ batch.drafts, ∀ db : Db, Q (db.stamp batch.options batch.ts raw))
    (h : db.append batch = .ok (db', written)) : ∀ event ∈ written, Q event := by
  obtain ⟨m, hm, -⟩ := append_eq_ok h
  refine Fold.traceM_invariant (P := fun (_ : Db) out => ∀ event ∈ out, Q event)
    (C := fun _ raw => raw ∈ batch.drafts) (w := []) ?_ (by simp)
    (Fold.along_of_forall fun _ _ hraw => hraw) hm
  intro s sofar raw s' event hs hraw hwrite
  obtain ⟨rfl, -⟩ := writeDraft_eq_ok.mp hwrite
  exact List.forall_mem_append.mpr ⟨hs, List.forall_mem_singleton.mpr (hQ raw hraw s)⟩

end Sightr
