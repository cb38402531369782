import Sightr.Client.Thread
import Sightr.Lib.Runs
import Sightr.Routes.Stream

/-!
# A thread from the store to the page

A page that opens a thread's stream of `bridge/threads/v2-routes.ts` and folds what it is sent with the reducer
of `web2/src/stream/apply.ts` shows the thread as the store has it, however the appends fall.
-/

namespace Sightr.Client

variable {controller : Nat → Enqueued} {threadId : String} {db : Db} {history : List Batch}
  {earlier : List (List StoredEvent)} {spec : StreamSpec} {s : ThreadState} {w : StreamWorld}

/-- What is appended says on the wire what the store does with it, and does not delete the thread. -/
def Shown (threadId : String) (w : StreamWorld) : StreamAction → Prop
  | .append batch => w.db.Meets (fun db event => ThreadMirrors threadId db.projection event ∧
      (event.payload.type = .threadDeleted → event.threadId ≠ some threadId)) [batch]
  | _ => True

/-- The page that folds what was committed since it had `s` holds what the tables hold. -/
def Folds (threadId : String) (s : ThreadState) (w : StreamWorld) : Prop :=
  ThreadCurrent threadId ((threadFrames threadId w.committed).foldl applyThreadEvent s) w.db

theorem Folds.step {action : StreamAction} (h : Folds threadId s w) (hshown : Shown threadId w action) :
    Folds threadId s (w.step controller action) := by
  cases action with
  | append batch =>
    rw [StreamWorld.step]
    split
    · exact h
    · next db' written happ =>
      have happends : w.db.appends [batch] = .ok (db', [written]) := by simp [Db.appends, Fold.traceM, happ]
      rw [← @List.flatten_singleton _ written]
      refine Db.appends_invariant (P := fun db sofar => ThreadCurrent threadId
        ((threadFrames threadId sofar).foldl applyThreadEvent s) db) ?_ ?_ h hshown happends
      · intro options ts m sofar raw m' event hm hC hstep
        have hnext := hm.writeDraft hC.1 hC.2 hstep
        rwa [← List.foldl_append, ← show threadFrames threadId (sofar ++ [event]) =
          threadFrames threadId sofar ++ threadFrames threadId [event] by simp [threadFrames]] at hnext
      · intro m m' sofar hsame hm
        exact ⟨hm.threadId_eq, hsame.projection ▸ hm.agrees, hsame.seq ▸ hm.sequence_le,
          hsame.projection ▸ hm.checkpointRuns⟩
  | ping | build | endStream => exact h

end Sightr.Client
