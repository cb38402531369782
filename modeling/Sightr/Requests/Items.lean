import Sightr.Contracts

/-!
# The timeline item of a runtime request

`bridge/threads/request-items.ts`: a request shows in its thread's timeline as one item keyed by the
request's id, written in the same batch as every update of the request. The JSON text of the item's own
properties (its questions, or its prompt and options) is a parameter: the store passes it through.
-/

namespace Sightr

def requestItemId (requestId : String) : String := "request:" ++ requestId

/-- A waiting item is `waiting`, an answered one `completed`, and an expired one `cancelled`. -/
def ITEM_STATUS : RuntimeRequestStatus → TurnItemStatus
  | .pending => .waiting
  | .resolved => .completed
  | .expired => .cancelled

section

variable (json : RuntimeRequest → String)

/-- The request's timeline item, without an ordinal: an update keeps the item's own. -/
def requestTurnItem (request : RuntimeRequest) : TurnItemDraft where
  id := requestItemId request.id
  threadId := request.threadId
  runId := request.runId
  ordinal := none
  status := ITEM_STATUS request.status
  title := request.subject.map (·.title)
  startedAt := some request.createdAt
  completedAt := if request.status = .pending then none else some request.updatedAt
  createdAt := request.createdAt
  updatedAt := request.updatedAt
  body := .other (if request.kind = .question then .userInputRequest else .approvalRequest) (json request)

/-- The request event and its timeline item, as one batch. -/
def requestEvents (request : RuntimeRequest) (boundText : Option String := none) : List EventDraft :=
  [{ threadId := some request.threadId, payload := .runtimeRequestUpdated request boundText },
    { threadId := some request.threadId, payload := .turnItemUpdated (requestTurnItem json request) }]

end

end Sightr
