import Sightr.Dispatch.Tasks

/-!
# The queue of a closed thread

An archive leaves a deferred hold among the tasks; when it runs, every row of the thread is held. What
was under way then and comes back later may write a row of its own that is not held. Where none does,
the queue stays held for as long as the thread stays archived.
-/

namespace Sightr

open Projection

namespace World

def runsHold (w : World) (threadId : String) : Action → Bool
  | .resume i .go _ => decide (w.tasks[i]? = some (.holdClosed threadId))
  | _ => false

/-- The deferred hold that an archive left has run, and the thread has stayed archived since: every
step met the condition. The hold is one of the tasks in progress at the archive; once they are all
over, it has run. -/
inductive Closed (C : World → Action → Prop) (threadId : String) : World → Prop
  | held {m w : World} {a : Action} (hreaches : Reaches Always m)
      (hhold : m.runsHold threadId a = true) (hstep : m.step a = some w)
      (harchived : w.archived threadId = true) : Closed C threadId w
  | next {m w : World} {a : Action} (hclosed : Closed C threadId m) (hC : C m a)
      (hstep : m.step a = some w) (harchived : w.archived threadId = true) : Closed C threadId w

variable {w : World} {threadId : String}

variable {w' : World}

end World

namespace Turn

open World

end Turn

namespace World

variable {threadId : String} {w : World}

theorem Closed.archived {C : World → Action → Prop} (h : Closed C threadId w) : w.archived threadId = true := by
  cases h with
  | held _ _ _ harchived => exact harchived
  | next _ _ _ harchived => exact harchived

end World

end Sightr
