import Sightr.Store.Items
import Sightr.Store.Threads

/-!
# What an event does to the requests

One event type writes a request, and a deleted thread takes its requests along. Every request therefore
has its thread.
-/

namespace Sightr

open Keyed (Table)

namespace Projection

/-! ### One event -/

/-- What an accepted event does to the `runtime_requests` table, and to the threads it refers to. -/
inductive RequestsChange (p p' : Projection) (event : StoredEvent) : Prop
  | same (hrequests : p'.runtimeRequests = p.runtimeRequests)
      (hthreads : ∀ id, p.threads.has id = true → p'.threads.has id = true)
      (htype : event.payload.type ≠ .runtimeRequestUpdated)
  | upserted (request : RuntimeRequest) (boundText : Option String)
      (hpay : event.payload = .runtimeRequestUpdated request boundText)
      (hthread : p.threads.has request.threadId = true)
      (hp : p' = { p with
        runtimeRequests := p.runtimeRequests.set (p.requestRow request boundText event.sequence) })
  | deleted (threadId : String) (hid : event.threadId = some threadId)
      (hpay : event.payload.type = .threadDeleted) (hp : p' = p.deleteThread threadId)

theorem has_set {t : Table (@ThreadOf.id AgentSessionRef)} {thread : ServerThread} {id : String}
    (h : t.has id = true) : (t.set thread).has id = true := by
  rw [Table.has, Table.find?_set]
  split_ifs
  · rfl
  · exact h

variable {p p' : Projection} {event : StoredEvent}

/-- An accepted event leaves the requests alone, writes one, or takes those of a deleted thread. -/
theorem requestsChange_of_applyEvent (h : p.applyEvent event = .ok p') : p.RequestsChange p' event := by
  cases applied_of_applyEvent h with
  | threadCreated hpay hinsert =>
    refine .same rfl (fun id hid => ?_) (by simp [hpay, Payload.type])
    rw [Table.has, Table.find?_insert? hinsert]
    split_ifs
    · rfl
    · exact hid
  | threadUpdated hpay | threadShelfChanged hpay | threadArchived hpay =>
    exact .same rfl (fun _ => has_set) (by simp [hpay, Payload.type])
  | threadDeleted hpay hid => exact .deleted _ hid (by rw [hpay]; rfl) rfl
  | runtimeRequestUpdated hpay hthread => exact .upserted _ _ hpay hthread rfl
  | notice hpay => exact .same rfl (fun _ => id) fun htype => by simp [htype] at hpay
  | _ => exact .same rfl (fun _ => id) (by simp [*, Payload.type])

/-! ### The requests' foreign key -/

def RequestsOwned (p : Projection) : Prop := ∀ row ∈ p.runtimeRequests.rows, p.threads.has row.body.threadId = true

theorem RequestsOwned.empty : RequestsOwned empty := by
  intro row hrow
  cases hrow

section

variable (h : p.RequestsOwned)
include h

theorem RequestsOwned.deleteThread (threadId : String) : (p.deleteThread threadId).RequestsOwned := by
  intro row hrow
  simp only [Projection.deleteThread, Table.rows_filter, List.mem_filter, decide_eq_true_eq] at hrow
  obtain ⟨thread, hthread⟩ := Option.isSome_iff_exists.mp (h row hrow.1)
  simp only [Projection.deleteThread, Table.has, Table.find?_filter, hthread]
  simp [Table.key_of_find? hthread, hrow.2]

theorem RequestsOwned.applyEvent (happ : p.applyEvent event = .ok p') : p'.RequestsOwned := by
  cases requestsChange_of_applyEvent happ with
  | same hrequests hthreads _ =>
    intro row hrow
    rw [hrequests] at hrow
    exact hthreads _ (h row hrow)
  | upserted request boundText hpay hthread hp =>
    subst hp
    intro row hrow
    rcases Table.mem_set.mp hrow with rfl | ⟨hmem, -⟩
    · exact hthread
    · exact h row hmem
  | deleted threadId hid hpay hp =>
    subst hp
    exact h.deleteThread threadId

theorem RequestsOwned.prune (at_ : Int) : (p.prune at_).RequestsOwned := by
  have hitems : (p.crowded.foldl pruneItems p).RequestsOwned := by
    rw [foldl_pruneItems_eq]
    exact h
  exact List.foldlRecOn _ _ hitems fun _ hq threadId _ => hq.deleteThread threadId

end

end Projection

end Sightr
