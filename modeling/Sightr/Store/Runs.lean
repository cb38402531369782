import Sightr.Store.Requests

/-!
# What an event does to the runs

A run is inserted, ended or updated, and goes with its thread.
-/

namespace Sightr

open Keyed (Table)

namespace Projection

/-! ### One event -/

/-- What an accepted event does to the `runs` table, and to the threads it refers to. -/
inductive RunsChange (p p' : Projection) (event : StoredEvent) : Prop
  | same (hruns : p'.runs = p.runs)
      (htype : event.payload.type ∉ [.runStarted, .runEnded, .runUpdated, .threadDeleted])
  | started (run : Run) (hpay : event.payload = .runStarted run)
      (hinsert : p.runs.insert? (runColumns run) = some p'.runs)
      (hthread : p.threads.has run.threadId = true)
  | ended (run : Run) (status : RunStatus) (completedAt : Int)
      (hpay : event.payload = .runEnded run.id status completedAt) (hfind : p.runs.find? run.id = some run)
      (hruns : p'.runs = p.runs.set { run with status, completedAt := some completedAt })
  | updated (run update : Run) (hpay : event.payload = .runUpdated update) (hid : update.id = run.id)
      (hfind : p.runs.find? run.id = some run)
      (hruns : p'.runs = p.runs.set
        { run with
          userItemId := update.userItemId, status := update.status, completedAt := update.completedAt })
  | deleted (threadId : String) (hid : event.threadId = some threadId)
      (hpay : event.payload.type = .threadDeleted) (hp : p' = p.deleteThread threadId)

/-- An accepted event leaves the runs alone, writes one, or takes those of a deleted thread. -/
theorem runsChange_of_applyEvent {p p' : Projection} {event : StoredEvent}
    (h : p.applyEvent event = .ok p') : p.RunsChange p' event := by
  cases applied_of_applyEvent h with
  | threadDeleted hpay hid => exact .deleted _ hid (by rw [hpay]; rfl) rfl
  | runStarted hpay hinsert hthread => exact .started _ hpay hinsert hthread
  | runEnded hpay hfind => exact .ended _ _ _ hpay hfind rfl
  | runUpdated hpay hid hfind => exact .updated _ _ hpay hid hfind rfl
  | notice hpay =>
    simp only [List.mem_cons, List.not_mem_nil, or_false] at hpay
    exact .same rfl (by rcases hpay with hpay | hpay | hpay <;> simp [hpay])
  | _ => exact .same rfl (by simp [*, Payload.type])

end Projection

end Sightr
