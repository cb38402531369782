import Sightr.Client.Wire
import Sightr.Herd.World

/-!
# The optimistic sidebar

`web2/src/state/sidebar.ts` shows a shelf command at once: `applyShelfCommand` of `Sidebar.logic.ts` foretells what
`decide` and the reducers will make of it, until the stream has reached the command's sequence. The commands carry
numbers that the bridge accepts (a number that is none is refused).
-/

namespace Sightr

namespace Client

open Keyed (Table)

/-! ### The commands -/

inductive ShelfCommand
  | rename (threadId title : String)
  | pin (threadId : String) (pinOrder : Option Rat)
  | unpin (threadId : String)
  | snooze (threadId : String) (until_ : Int)
  | unsnooze (threadId : String)
  | settle (threadId : String)
  | unsettle (threadId : String)
  | archive (threadId : String)
  | unarchive (threadId : String)
  | markRead (threadId : String)
  | markUnread (threadId : String)
  deriving DecidableEq

namespace ShelfCommand

def threadId : ShelfCommand → String
  | rename id _ | pin id _ | unpin id | snooze id _ | unsnooze id | settle id | unsettle id | archive id
  | unarchive id | markRead id | markUnread id => id

def toCommand : ShelfCommand → Command
  | rename id title => .rename id title
  | pin id pinOrder => .pin id (pinOrder.map some)
  | unpin id => .unpin id
  | snooze id until_ => .snooze id (some until_)
  | unsnooze id => .unsnooze id
  | settle id => .settle id
  | unsettle id => .unsettle id
  | archive id => .archive id
  | unarchive id => .unarchive id
  | markRead id => .markRead id
  | markUnread id => .markUnread id

@[simp] theorem threadId?_toCommand (command : ShelfCommand) :
    command.toCommand.threadId? = some command.threadId := by
  cases command <;> rfl

end ShelfCommand

/-! ### The overlay -/

/-- `shelf(next)`: the thread on another shelf, without what belongs to one. -/
def onShelf (thread : Thread) (next : Shelf) (at_ : Int) : Thread :=
  { thread with
    shelf := next
    updatedAt := at_
    snoozedUntil := none
    pinnedAt := none
    pinOrder := none
    settledAt := none
    archivedAt := none
    archiveReason := none }

def applyShelfCommand (thread : Thread) (command : ShelfCommand) (at_ : Int) (maxPinOrder : Rat) : Thread :=
  let archived := thread.shelf = .archived
  match command with
  | .rename _ title =>
    let title := JsText.trim title.toList
    if title ≠ [] ∧ ¬archived then
      { thread with title := String.ofList title, titleSource := .user, updatedAt := at_ }
    else thread
  | .pin _ pinOrder =>
    if archived then thread
    else if thread.shelf = .pinned ∧ (pinOrder = none ∨ pinOrder = thread.pinOrder) then thread
    else
      { onShelf thread .pinned at_ with
        pinnedAt := some at_, pinOrder := some (pinOrder.getD (maxPinOrder + 1)) }
  | .unpin _ => if thread.shelf = .pinned then onShelf thread .active at_ else thread
  | .snooze _ until_ =>
    if archived ∨ until_ ≤ at_ then thread
    else { onShelf thread .snoozed at_ with snoozedUntil := some until_ }
  | .unsnooze _ => if thread.shelf = .snoozed then onShelf thread .active at_ else thread
  | .settle _ =>
    if archived ∨ thread.shelf = .settled then thread
    else { onShelf thread .settled at_ with settledAt := some at_ }
  | .unsettle _ => if thread.shelf = .settled then onShelf thread .active at_ else thread
  | .archive _ =>
    if archived then thread
    else { onShelf thread .active at_ with shelf := .archived, archivedAt := some at_, archiveReason := some .user }
  | .unarchive _ => if archived then onShelf thread .active at_ else thread
  | .markRead _ => if thread.unreadDone then { thread with unreadDone := false, updatedAt := at_ } else thread
  | .markUnread _ => if thread.unreadDone then thread else { thread with unreadDone := true, updatedAt := at_ }

/-- A command whose answer, or whose event, is still to come. -/
structure PendingCommand where
  commandId : String
  command : ShelfCommand
  at_ : Int
  maxPinOrder : Rat
  /-- The bridge's reply; the overlay drops once the shell stream reaches it. -/
  sequence : Option Nat := none
  deriving DecidableEq

abbrev Threads := Table (@ThreadOf.id WireSessionRef)

def overlay (threads : Threads) (p : PendingCommand) : Threads :=
  match threads.find? p.command.threadId with
  | none => threads
  | some thread => threads.set (applyShelfCommand thread p.command p.at_ p.maxPinOrder)

def applyPending (threads : Threads) (pending : List PendingCommand) : Threads := pending.foldl overlay threads

def maxPinOrder (threads : Threads) : Rat :=
  threads.rows.foldl (fun max t =>
    if t.shelf = .pinned ∧ max < t.pinOrder.getD 0 then t.pinOrder.getD 0 else max) 0

/-- The shell stream's state and the commands sent over it. -/
structure PendingShelf where
  threads : Threads
  sequence : Nat
  pending : List PendingCommand
  /-- The commands sent so far, those without an answer, and the sequences of the answers. -/
  sent : List String
  inFlight : List String
  replies : List Nat

namespace PendingShelf

def start (threads : Threads) (sequence : Nat) : PendingShelf := ⟨threads, sequence, [], [], [], []⟩

inductive Event
  | send (commandId : String) (command : ShelfCommand) (at_ : Int)
  /-- The POST was answered with the command's sequence. -/
  | replied (commandId : String) (sequence : Nat)
  | failed (commandId : String)
  | stream (threads : Threads) (sequence : Nat)
  | grace (commandId : String)

variable (w : PendingShelf) (commandId : String)

def drop : PendingShelf := { w with pending := w.pending.filter (·.commandId ≠ commandId) }

def pruneConfirmed (sequence : Nat) : PendingShelf :=
  { w with pending := w.pending.filter fun p => p.sequence.all (sequence < ·) }

def send (command : ShelfCommand) (at_ : Int) : PendingShelf :=
  { w with
    pending := w.pending ++ [{ commandId, command, at_, maxPinOrder := maxPinOrder w.threads }]
    sent := w.sent ++ [commandId]
    inFlight := w.inFlight ++ [commandId] }

def answered (replies : List Nat) : PendingShelf :=
  { w with inFlight := w.inFlight.filter (· ≠ commandId), replies := w.replies ++ replies }

def confirm (sequence : Nat) : PendingShelf :=
  { w with
    pending := w.pending.map fun p => if p.commandId = commandId then { p with sequence := some sequence } else p }

def step : Event → Option PendingShelf
  | .send commandId command at_ => if commandId ∈ w.sent then none else some (w.send commandId command at_)
  | .replied commandId sequence =>
    if commandId ∉ w.inFlight then none
    else
      let w := w.answered commandId [sequence]
      some (if sequence ≤ w.sequence then w.drop commandId else w.confirm commandId sequence)
  | .failed commandId =>
    if commandId ∉ w.inFlight then none else some ((w.answered commandId []).drop commandId)
  | .stream threads sequence =>
    let w' := { w with threads, sequence }
    some (if sequence ≠ w.sequence then w'.pruneConfirmed sequence else w')
  | .grace commandId => some (w.drop commandId)

/-- An overlay waits for its command's answer, or for the stream to reach it. -/
def Waits (p : PendingCommand) : Prop :=
  (p.sequence = none → p.commandId ∈ w.inFlight) ∧ ∀ q, p.sequence = some q → w.sequence < q ∧ q ∈ w.replies

def Sound : Prop := ∀ p ∈ w.pending, w.Waits p

variable {w w' : PendingShelf}

private theorem Waits.answered {p : PendingCommand} (h : w.Waits p) {commandId : String}
    (hid : p.commandId ≠ commandId)
    (replies : List Nat) : (w.answered commandId replies).Waits p :=
  ⟨fun hnone => List.mem_filter.mpr ⟨h.1 hnone, by simpa using hid⟩,
    fun q hq => ⟨(h.2 q hq).1, List.mem_append_left _ (h.2 q hq).2⟩⟩

theorem Sound.step (h : w.Sound) {event : Event} (hstep : w.step event = some w') : w'.Sound := by
  cases event with
  | send commandId command at_ =>
    simp only [PendingShelf.step] at hstep
    split_ifs at hstep
    obtain rfl := Option.some.inj hstep
    intro p hp
    rcases List.mem_append.mp hp with hp | hp
    · exact ⟨fun hnone => List.mem_append_left _ ((h p hp).1 hnone), (h p hp).2⟩
    · rw [List.mem_singleton.mp hp]
      exact ⟨fun _ => List.mem_append_right _ (List.mem_singleton_self _), fun q hq => (by cases hq)⟩
  | replied commandId sequence =>
    simp only [PendingShelf.step] at hstep
    split_ifs at hstep with hflight hreached
    · obtain rfl := Option.some.inj hstep
      intro p hp
      obtain ⟨hp, hother⟩ := List.mem_filter.mp hp
      exact (h p hp).answered (by simpa using hother) _
    · obtain rfl := Option.some.inj hstep
      intro p hp
      obtain ⟨old, hmem, rfl⟩ := List.mem_map.mp hp
      split_ifs with hid
      · refine ⟨fun hnone => (by cases hnone), fun q hq => ?_⟩
        obtain rfl := Option.some.inj hq
        exact ⟨Nat.lt_of_not_le hreached, List.mem_append_right _ (List.mem_singleton_self _)⟩
      · exact (h old hmem).answered hid _
  | failed commandId =>
    simp only [PendingShelf.step] at hstep
    split_ifs at hstep with hflight
    obtain rfl := Option.some.inj hstep
    intro p hp
    obtain ⟨hp, hother⟩ := List.mem_filter.mp hp
    exact (h p hp).answered (by simpa using hother) _
  | stream threads sequence =>
    simp only [PendingShelf.step] at hstep
    split_ifs at hstep with hmoved
    · obtain rfl := Option.some.inj hstep
      intro p hp
      obtain ⟨hp, hkeep⟩ := List.mem_filter.mp hp
      refine ⟨(h p hp).1, fun q hq => ⟨?_, ((h p hp).2 q hq).2⟩⟩
      rw [hq] at hkeep
      change sequence < q
      simpa using hkeep
    · obtain rfl := Option.some.inj hstep
      rw [not_not] at hmoved
      exact fun p hp => ⟨(h p hp).1, fun q hq => ⟨hmoved ▸ ((h p hp).2 q hq).1, ((h p hp).2 q hq).2⟩⟩
  | grace commandId =>
    obtain rfl := Option.some.inj hstep
    exact fun p hp => h p (List.mem_of_mem_filter hp)

theorem Sound.settled (h : w.Sound) (hanswered : w.inFlight = []) (hreached : ∀ q ∈ w.replies, q ≤ w.sequence) :
    w.pending = [] := by
  refine List.eq_nil_iff_forall_not_mem.mpr fun p hp => ?_
  cases hseq : p.sequence with
  | none =>
    have hflight := (h p hp).1 hseq
    rw [hanswered] at hflight
    cases hflight
  | some q =>
    obtain ⟨hbehind, hreply⟩ := (h p hp).2 q hseq
    exact absurd (hreached q hreply) (Nat.not_le.mpr hbehind)

end PendingShelf

/-! ### What the bridge makes of the commands -/

/-- The threads of the store, as the shell stream shows them. -/
def shellThreads (p : Projection) : Threads :=
  ⟨p.threads.rows.map toWireThread, by rw [List.map_map]; exact p.threads.nodup⟩

def showEvent (threads : Threads) (event : ThreadEvent) : Threads :=
  match (event.threadId.bind threads.find?).bind (patchThread · event) with
  | none => threads
  | some next => threads.set next

/-- A command that is sent, and what the bridge is told and gives it: whether the thread's pane is alive, and the
sequence of its event. -/
structure ShelfCall where
  commandId : String
  command : ShelfCommand
  paneAlive : Bool
  sequence : Nat

/-- The events of an accepted command, and the store after them. -/
def bridgeAnswer (at_ : Int) (p : Projection) (call : ShelfCall) : Option (Projection × List StoredEvent) :=
  let command := call.command.toCommand
  match decideCommand (p.decideState command call.paneAlive) at_ command with
  | .rejected .. => none
  | .ok drafts =>
    let events := drafts.map fun draft =>
      { sequence := call.sequence, threadId := draft.threadId, commandId := some call.commandId,
        payload := draft.payload, ts := at_ : StoredEvent }
    match events.foldlM Projection.applyEvent p with
    | .ok p' => some (p', events)
    | .error _ => none

/-- The sidebar over a stream that has not moved yet, and what it will show. -/
structure Foretold where
  client : PendingShelf
  bridge : Projection
  /-- The stream's threads once the events have come. -/
  shown : Threads

namespace Foretold

def start (p : Projection) (sequence : Nat) : Foretold where
  client := .start (shellThreads p) sequence
  bridge := p
  shown := shellThreads p

def step (at_ : Int) (s : Foretold) (call : ShelfCall) : Option Foretold :=
  (bridgeAnswer at_ s.bridge call).map fun (bridge, events) =>
    { client := s.client.send call.commandId call.command at_
      bridge
      shown := (events.map StoredEvent.frame).foldl showEvent s.shown }

/-- Thread by thread, the sidebar shows what the stream will. -/
def Agrees (s : Foretold) : Prop :=
  ∀ id, (applyPending s.client.threads s.client.pending).find? id = s.shown.find? id

/-- A pin that leaves the place to the bridge gets the one the sidebar expects. -/
def KnowsTop (s : Foretold) (call : ShelfCall) : Prop :=
  ∀ id thread, call.command = .pin id none → s.bridge.threads.find? id = some thread → thread.shelf ≠ .pinned →
    s.bridge.maxPinOrder = maxPinOrder s.client.threads

/-- A condition on each call and the state after it, along a list of calls; a refused one leaves the state. -/
def Throughout (at_ : Int) (P : Foretold → ShelfCall → Foretold → Prop) : Foretold → List ShelfCall → Prop
  | _, [] => True
  | s, call :: calls =>
    match s.step at_ call with
    | none => Throughout at_ P s calls
    | some s' => P s call s' ∧ Throughout at_ P s' calls

end Foretold

/-! ### One command on both sides -/

variable {mine : Thread} {thread : ServerThread}

theorem reads_of_wire (h : withoutFalseFlags mine = withoutFalseFlags (toWireThread thread)) :
    mine.id = thread.id ∧ mine.shelf = thread.shelf ∧ mine.pinOrder = thread.pinOrder ∧
      mine.unreadDone = thread.unreadDone :=
  ⟨congrArg ThreadOf.id h, congrArg ThreadOf.shelf h, congrArg ThreadOf.pinOrder h, congrArg ThreadOf.unreadDone h⟩

/-- What the decision's events make of a thread is what the sidebar made of it: nothing, or one event. -/
def Foretells (thread : ServerThread) (mine : Thread) (drafts : List EventDraft) (command : ShelfCommand) (at_ : Int)
    (maxPinOrder : Rat) : Prop :=
  drafts = [] ∧ (∀ m, applyShelfCommand mine command at_ m = mine) ∨
    ∃ payload, drafts = [{ threadId := some thread.id, payload }] ∧ payload.type ∈ THREAD_PATCH_TYPES ∧
      (∀ patch a, payload = .threadUpdated patch a → ClearsNothing thread patch) ∧
      ∀ event : ThreadEvent, event.payload = ServerPayload.toWire payload.toJson →
        patchThread mine event = some (applyShelfCommand mine command at_ maxPinOrder)

section

variable {thread : ServerThread} {mine : Thread} {drafts : List EventDraft} {command : ShelfCommand} {at_ : Int}
  {top : Rat}

variable {shelf : Shelf}

theorem foretells_shelf {snoozedUntil : Option Int} {pinOrder : Option Rat}
    (h : Decision.accept thread.id (.threadShelfChanged shelf snoozedUntil pinOrder at_) = .ok drafts)
    (hnext : applyShelfCommand mine command at_ top = shelfChanged mine shelf snoozedUntil pinOrder at_) :
    Foretells thread mine drafts command at_ top := by
  refine .inr ⟨_, (Decision.ok.inj h).symm, by simp [THREAD_PATCH_TYPES, Payload.type],
    fun _ _ hpay => (by cases hpay), fun event hpay => ?_⟩
  rw [hnext]
  simp only [patchThread, hpay, Payload.toJson, ServerPayload.toWire]

theorem foretells_patch {patch : ServerThreadPatch} (hclear : ClearsNothing thread patch)
    (h : Decision.accept thread.id (.threadUpdated patch at_) = .ok drafts)
    (hnext : applyShelfCommand mine command at_ top = patched mine (toWirePatch patch.toJson) at_) :
    Foretells thread mine drafts command at_ top := by
  refine .inr ⟨_, (Decision.ok.inj h).symm, by simp [THREAD_PATCH_TYPES, Payload.type],
    fun _ _ hpay => (by cases hpay; exact hclear), fun event hpay => ?_⟩
  rw [hnext]
  simp only [patchThread, hpay, Payload.toJson, ServerPayload.toWire]

theorem foretells_leave (hshelf : mine.shelf = thread.shelf) (h : leaveShelf at_ thread shelf = .ok drafts)
    (hnext : ∀ m, applyShelfCommand mine command at_ m = if mine.shelf =
      shelf then onShelf mine .active at_ else mine) :
    Foretells thread mine drafts command at_ top := by
  unfold leaveShelf at h
  split_ifs at h with hother
  · exact .inl ⟨(Decision.ok.inj h).symm, fun m => by rw [hnext, if_neg (hshelf ▸ hother)]⟩
  · rw [not_not] at hother
    exact foretells_shelf h (by rw [hnext, if_pos (hshelf.trans hother)]; rfl)

theorem foretells_mark {flag : Bool} (hunread : mine.unreadDone = thread.unreadDone)
    (h : markUnreadDone at_ thread flag = .ok drafts)
    (hnext : ∀ m, applyShelfCommand mine command at_ m =
      if mine.unreadDone = flag then mine else { mine with unreadDone := flag, updatedAt := at_ }) :
    Foretells thread mine drafts command at_ top := by
  unfold markUnreadDone at h
  split_ifs at h with hsame
  · exact .inl ⟨(Decision.ok.inj h).symm, fun m => by rw [hnext, if_pos (hunread.trans hsame)]⟩
  · exact foretells_patch (by constructor <;> simp [JsField.FindsEmpty]) h
      (by rw [hnext, if_neg (hunread ▸ hsame)]; rfl)

end

variable {state : DecideState} {drafts : List EventDraft}

theorem decideThread_eq_ok {id : String} {f : ServerThread → Decision} (h : decideThread state id f = .ok drafts) :
    ∃ thread, state.thread = some thread ∧ f thread = .ok drafts := by
  unfold decideThread at h
  split at h
  · cases h
  · rename_i thread hthread
    split_ifs at h
    exact ⟨thread, hthread, h⟩

variable {command : ShelfCommand} {at_ : Int}

theorem thread_of_decide (h : decideCommand state at_ command.toCommand = .ok drafts) :
    ∃ thread, state.thread = some thread ∧ ∀ id, command = .pin id none → thread.shelf ≠ .archived := by
  cases command with
  | pin id order =>
    obtain ⟨thread, hthread, h⟩ := decideThread_eq_ok h
    refine ⟨thread, hthread, fun _ _ harchived => ?_⟩
    rw [if_pos harchived] at h
    cases h
  | _ =>
    obtain ⟨thread, hthread, -⟩ := decideThread_eq_ok h
    exact ⟨thread, hthread, fun _ hpin => (by cases hpin)⟩

/-- What an accepted command finds: an archived thread is not pinned, snoozed or settled, and no wake time is past. -/
def ShelfCommand.Fits (command : ShelfCommand) (shelf : Shelf) (at_ : Int) : Prop :=
  match command with
  | .pin .. | .settle _ => shelf ≠ .archived
  | .snooze _ until_ => shelf ≠ .archived ∧ at_ < until_
  | _ => True

theorem fits_of_decide (hthread : state.thread = some thread)
    (h : decideCommand state at_ command.toCommand = .ok drafts) : command.Fits thread.shelf at_ := by
  have hpeel {id : String} {f : ServerThread → Decision} (h : decideThread state id f = .ok drafts) :
      f thread = .ok drafts := by
    obtain ⟨found, hfound, h⟩ := decideThread_eq_ok h
    rw [hthread] at hfound
    exact Option.some.inj hfound ▸ h
  cases command with
  | pin id order =>
    replace h := hpeel h
    intro harchived
    rw [if_pos harchived] at h
    cases h
  | settle id =>
    replace h := hpeel h
    intro harchived
    rw [if_pos harchived] at h
    cases h
  | snooze id until_ =>
    replace h := hpeel h
    dsimp only at h
    split_ifs at h with hpast harchived
    exact ⟨harchived, not_le.mp hpast⟩
  | _ => trivial

theorem fits_of_bridgeAnswer {p p' : Projection} {events : List StoredEvent} {row : ServerThread} {call : ShelfCall}
    (h : bridgeAnswer at_ p call = some (p', events)) (hrow : p.threads.find? call.command.threadId = some row) :
    call.command.Fits row.shelf at_ := by
  unfold bridgeAnswer at h
  dsimp only at h
  split at h
  · cases h
  · next drafts hdecide =>
    refine fits_of_decide ?_ hdecide
    simp [Projection.decideState, hrow]

theorem foretells_decide (hthread : state.thread = some thread)
    (hmine : withoutFalseFlags mine = withoutFalseFlags (toWireThread thread))
    (h : decideCommand state at_ command.toCommand = .ok drafts) :
    Foretells thread mine drafts command at_ (state.maxPinOrder.getD 0) := by
  obtain ⟨-, hshelf, horder, hunread⟩ := reads_of_wire hmine
  have hpeel {id : String} {f : ServerThread → Decision} (h : decideThread state id f = .ok drafts) :
      f thread = .ok drafts := by
    obtain ⟨found, hfound, h⟩ := decideThread_eq_ok h
    rw [hthread] at hfound
    exact Option.some.inj hfound ▸ h
  cases command with
  | rename id title =>
    replace h := hpeel h
    split at h
    · rename_i refusal hname
      unfold checkName at hname
      dsimp only at hname
      split_ifs at hname <;> (cases hname; cases h)
    · rename_i name hname
      unfold checkName at hname
      dsimp only at hname
      split_ifs at hname with hempty hlong
      obtain rfl := Except.ok.inj hname
      split_ifs at h with harchived
      refine foretells_patch (by constructor <;> simp [JsField.FindsEmpty]) h ?_
      have hkept : JsText.trim title.toList ≠ [] ∧ ¬mine.shelf = .archived := ⟨hempty, hshelf ▸ harchived⟩
      simp only [applyShelfCommand]
      rw [if_pos hkept]
      rfl
  | pin id order =>
    replace h := hpeel h
    by_cases harchived : thread.shelf = .archived
    · rw [if_pos harchived] at h
      cases h
    rw [if_neg harchived] at h
    cases order with
    | none =>
      simp only [Option.map_none] at h
      split_ifs at h with hpinned
      · exact .inl ⟨(Decision.ok.inj h).symm, fun m => by simp [applyShelfCommand, hshelf, hpinned]⟩
      · refine foretells_shelf h ?_
        simp only [applyShelfCommand, hshelf, harchived, hpinned, false_and, if_false]
        rfl
    | some order =>
      simp only [Option.map_some] at h
      split_ifs at h with hplace
      · exact .inl ⟨(Decision.ok.inj h).symm, fun m => by
          simp [applyShelfCommand, hshelf, horder, hplace.1, hplace.2]⟩
      · refine foretells_shelf h ?_
        have hmove : ¬(thread.shelf = .pinned ∧ (some order = none ∨ some order = thread.pinOrder)) := by
          rintro ⟨hpinned, hsame | hsame⟩
          · cases hsame
          · exact hplace ⟨hpinned, hsame.symm⟩
        simp only [applyShelfCommand, hshelf, horder, harchived, if_false]
        rw [if_neg hmove]
        rfl
  | unpin id => exact foretells_leave hshelf (hpeel h) fun m => rfl
  | unsnooze id => exact foretells_leave hshelf (hpeel h) fun m => rfl
  | unsettle id => exact foretells_leave hshelf (hpeel h) fun m => rfl
  | snooze id until_ =>
    replace h := hpeel h
    dsimp only at h
    split_ifs at h with hpast harchived
    refine foretells_shelf h ?_
    simp only [applyShelfCommand, hshelf, harchived, hpast, or_self, if_false]
    rfl
  | settle id =>
    replace h := hpeel h
    split_ifs at h with harchived hsettled
    · exact .inl ⟨(Decision.ok.inj h).symm, fun m => by simp [applyShelfCommand, hshelf, hsettled]⟩
    · refine foretells_shelf h ?_
      simp only [applyShelfCommand, hshelf, harchived, hsettled, or_self, if_false]
      rfl
  | archive id =>
    replace h := hpeel h
    split_ifs at h with harchived
    · exact .inl ⟨(Decision.ok.inj h).symm, fun m => by simp [applyShelfCommand, hshelf, harchived]⟩
    · refine .inr ⟨_, (Decision.ok.inj h).symm, by simp [THREAD_PATCH_TYPES, Payload.type],
        fun _ _ hpay => (by cases hpay), fun event hpay => ?_⟩
      simp only [patchThread, hpay, Payload.toJson, ServerPayload.toWire, applyShelfCommand, hshelf, harchived,
        if_false]
      rfl
  | unarchive id =>
    replace h := hpeel h
    split_ifs at h with harchived halive
    · exact .inl ⟨(Decision.ok.inj h).symm, fun m => by simp [applyShelfCommand, hshelf, harchived]⟩
    · refine foretells_shelf h ?_
      rw [ne_eq, not_not] at harchived
      simp only [applyShelfCommand, hshelf, harchived, if_true]
      rfl
  | markRead id =>
    refine foretells_mark hunread (hpeel h) fun m => ?_
    cases hflag : mine.unreadDone <;> simp [applyShelfCommand, hflag]
  | markUnread id =>
    refine foretells_mark hunread (hpeel h) fun m => ?_
    cases hflag : mine.unreadDone <;> simp [applyShelfCommand, hflag]

theorem applyShelfCommand_inj {m n : Rat} :
    applyShelfCommand mine command at_ m = applyShelfCommand mine command at_ n ↔
      m = n ∨ ¬∃ id, command = .pin id none ∧ mine.shelf ≠ .archived ∧ mine.shelf ≠ .pinned := by
  cases command with
  | pin id order =>
    cases order with
    | none =>
      by_cases harchived : mine.shelf = .archived
      · simp [applyShelfCommand, harchived]
      by_cases hpinned : mine.shelf = .pinned
      · simp [applyShelfCommand, hpinned]
      simp only [applyShelfCommand, harchived, hpinned, false_and, if_false]
      constructor
      · intro h
        have horder : some (m + 1) = some (n + 1) := congrArg ThreadOf.pinOrder h
        exact .inl (by simpa using horder)
      · rintro (rfl | h)
        · rfl
        · exact absurd ⟨id, rfl, harchived, hpinned⟩ h
    | some order => exact iff_of_true rfl (.inr (by simp))
  | _ => exact iff_of_true rfl (.inr (by simp))

/-! ### A list of commands -/

theorem find?_shellThreads (p : Projection) (id : String) :
    (shellThreads p).find? id = (p.threads.find? id).map toWireThread := by
  unfold shellThreads Table.find?
  rw [List.find?_map]
  rfl

theorem find?_overlay (threads : Threads) (e : PendingCommand) (id : String) :
    (overlay threads e).find? id = if e.command.threadId = id then
      (threads.find? id).map fun thread => applyShelfCommand thread e.command e.at_ e.maxPinOrder
    else threads.find? id := by
  have hid (thread : Thread) : (applyShelfCommand thread e.command e.at_ e.maxPinOrder).id = thread.id := by
    unfold applyShelfCommand onShelf
    cases e.command <;> dsimp only <;> split_ifs <;> rfl
  unfold overlay
  split
  · rename_i hnone
    split_ifs with hsame
    · rw [← hsame, hnone]
      rfl
    · rfl
  · rename_i thread hfind
    rw [Table.find?_set, hid, Table.key_of_find? hfind]
    split_ifs with hsame
    · rw [← hsame, hfind]
      rfl
    · rfl

namespace Foretold

variable {s s' : Foretold} {at_ : Int} {call : ShelfCall}

/-- The shown threads are the bridge's, an unset and a false flag identified. -/
def Linked (s : Foretold) : Prop :=
  ∀ id, (s.shown.find? id).map withoutFalseFlags =
    (s.bridge.threads.find? id).map fun thread => withoutFalseFlags (toWireThread thread)

theorem linked_start (p : Projection) (sequence : Nat) : (start p sequence).Linked := by
  intro id
  change ((shellThreads p).find? id).map withoutFalseFlags = _
  rw [find?_shellThreads, Option.map_map]
  rfl

theorem agrees_start (p : Projection) (sequence : Nat) : (start p sequence).Agrees := fun _ => rfl

theorem threads_of_step (h : s.Linked) (hstep : s.step at_ call = some s') :
    ∃ thread mine drafts events, s.bridge.threads.find? call.command.threadId = some thread ∧
      s.shown.find? call.command.threadId = some mine ∧
      withoutFalseFlags mine = withoutFalseFlags (toWireThread thread) ∧
      Foretells thread mine drafts call.command at_ s.bridge.maxPinOrder ∧
      (∀ id, call.command = .pin id none → thread.shelf ≠ .archived) ∧
      events = drafts.map (fun draft =>
        { sequence := call.sequence, threadId := draft.threadId, commandId := some call.commandId,
          payload := draft.payload, ts := at_ : StoredEvent }) ∧
      events.foldlM Projection.applyEvent s.bridge = .ok s'.bridge ∧
      s'.client = s.client.send call.commandId call.command at_ ∧
      s'.shown = (events.map StoredEvent.frame).foldl showEvent s.shown := by
  obtain ⟨⟨bridge, events⟩, hanswer, rfl⟩ := Option.map_eq_some_iff.mp hstep
  unfold bridgeAnswer at hanswer
  dsimp only at hanswer
  split at hanswer
  · cases hanswer
  · rename_i drafts hdecide
    split at hanswer
    · rename_i p' hfold
      cases hanswer
      have hthread : (s.bridge.decideState call.command.toCommand call.paneAlive).thread =
          s.bridge.threads.find? call.command.threadId := by
        simp [Projection.decideState]
      obtain ⟨thread, hfind, hlive⟩ := thread_of_decide hdecide
      rw [hthread] at hfind
      have hlink := h call.command.threadId
      rw [hfind] at hlink
      obtain ⟨mine, hmine, hsame⟩ := Option.map_eq_some_iff.mp hlink
      exact ⟨thread, mine, drafts, _, hfind, hmine, hsame,
        foretells_decide (hthread.trans hfind) hsame hdecide, hlive, rfl, hfold, rfl, rfl⟩
    · cases hanswer

theorem shown_of_step (h : s.Linked) (hstep : s.step at_ call = some s') :
    s'.Linked ∧ s'.client = s.client.send call.commandId call.command at_ ∧
      ∃ thread mine, s.bridge.threads.find? call.command.threadId = some thread ∧
        s.shown.find? call.command.threadId = some mine ∧ mine.shelf = thread.shelf ∧
        (∀ id, call.command = .pin id none → thread.shelf ≠ .archived) ∧
        ∀ id, s'.shown.find? id = if call.command.threadId = id then
            some (applyShelfCommand mine call.command at_ s.bridge.maxPinOrder)
          else s.shown.find? id := by
  obtain ⟨thread, mine, drafts, events, hfind, hmine, hsame, hforetells, hlive, hevents, hfold, hclient, hshown⟩ :=
    threads_of_step h hstep
  have hshelf : mine.shelf = thread.shelf := congrArg ThreadOf.shelf hsame
  obtain ⟨rfl, hkeep⟩ | ⟨payload, rfl, htype, hclear, hpatch⟩ := hforetells
  · subst hevents
    have hbridge : s'.bridge = s.bridge := (Except.ok.inj hfold).symm
    have hshown : s'.shown = s.shown := hshown
    refine ⟨?_, hclient, thread, mine, hfind, hmine, hshelf, hlive, fun id => ?_⟩
    · unfold Linked
      rw [hbridge, hshown]
      exact h
    · rw [hshown, hkeep]
      split_ifs with hid
      · exact hid ▸ hmine
      · rfl
  · subst hevents
    obtain ⟨p', happ, hrest⟩ := Fold.foldlM_cons_eq_ok.mp hfold
    have hbridge : p' = s'.bridge := Except.ok.inj hrest
    rw [hbridge] at happ
    have hid : thread.id = call.command.threadId := Table.key_of_find? hfind
    have hclears : s.bridge.ClearsNothing
        { sequence := call.sequence, threadId := some thread.id, commandId := some call.commandId, payload,
          ts := at_ } := by
      unfold Projection.ClearsNothing
      simp only [Option.bind_some, hid, hfind]
      split
      · rename_i found patch a hfound
        obtain rfl := Option.some.inj hfound
        exact hclear patch a rfl
      · trivial
    obtain ⟨_, _, row, hname, -, hold, hrow, hafter, hmirror⟩ := patchThread_mirrors htype hclears happ
    obtain rfl := Option.some.inj hname
    rw [hid, hfind] at hold
    obtain rfl := Option.some.inj hold
    obtain ⟨next, hnext, hsameRow⟩ := hmirror mine hsame
    have hforetold : some next = some (applyShelfCommand mine call.command at_ s.bridge.maxPinOrder) :=
      hnext.symm.trans (hpatch _ rfl)
    obtain rfl := Option.some.inj hforetold
    have hnextId : (applyShelfCommand mine call.command at_ s.bridge.maxPinOrder).id = call.command.threadId :=
      (congrArg ThreadOf.id hsameRow).trans (hrow.trans hid)
    have hset : s'.shown = s.shown.set (applyShelfCommand mine call.command at_ s.bridge.maxPinOrder) := by
      rw [hshown]
      change showEvent s.shown _ = _
      unfold showEvent
      rw [StoredEvent.threadId_frame]
      simp only [Option.bind_some, hid, hmine]
      rw [hid] at hnext
      rw [hnext]
    have hview (id : String) : s'.shown.find? id = if call.command.threadId = id then
        some (applyShelfCommand mine call.command at_ s.bridge.maxPinOrder) else s.shown.find? id := by
      rw [hset, Table.find?_set, hnextId]
    refine ⟨fun id => ?_, hclient, thread, mine, hfind, hmine, hshelf, hlive, hview⟩
    have hthreads : s'.bridge.threads = s.bridge.threads.set row := by rw [hafter]
    rw [hview, hthreads, Table.find?_set, hrow, hid]
    split_ifs with hsameId
    · exact congrArg some hsameRow
    · exact h id

/-- An accepted command makes of the bridge's row what the sidebar would with the bridge's highest pin order. -/
theorem row_of_bridgeAnswer {p p' : Projection} {events : List StoredEvent} {row : ServerThread}
    (h : bridgeAnswer at_ p call = some (p', events)) (hrow : p.threads.find? call.command.threadId = some row) :
    ∃ row', p'.threads.find? call.command.threadId = some row' ∧ withoutFalseFlags (toWireThread row') =
        withoutFalseFlags (applyShelfCommand (toWireThread row) call.command at_ p.maxPinOrder) := by
  have hstep : ∃ s', (start p 0).step at_ call = some s' ∧ s'.bridge = p' := by
    unfold step
    rw [show (start p 0).bridge = p from rfl, h]
    exact ⟨_, rfl, rfl⟩
  obtain ⟨s', hstep, rfl⟩ := hstep
  obtain ⟨hlinked, -, thread, mine, -, hmine, -, -, hview⟩ := shown_of_step (linked_start p 0) hstep
  have hshown : (start p 0).shown.find? call.command.threadId = some (toWireThread row) := by
    change (shellThreads p).find? _ = _
    rw [find?_shellThreads, hrow]
    rfl
  obtain rfl : toWireThread row = mine := Option.some.inj (hshown.symm.trans hmine)
  have hlink := hlinked call.command.threadId
  rw [hview, if_pos rfl] at hlink
  obtain ⟨row', hfind, heq⟩ := Option.map_eq_some_iff.mp hlink.symm
  exact ⟨row', hfind, heq⟩

theorem agrees_step (h : s.Linked) (hagrees : s.Agrees) (hstep : s.step at_ call = some s') :
    s'.Agrees ↔ s.KnowsTop call := by
  obtain ⟨-, hclient, thread, mine, hfind, hmine, hshelf, hlive, hview⟩ := shown_of_step h hstep
  have hpending (id : String) : (applyPending s'.client.threads s'.client.pending).find? id =
      if call.command.threadId = id then
        some (applyShelfCommand mine call.command at_ (maxPinOrder s.client.threads))
      else s.shown.find? id := by
    rw [hclient]
    change (applyPending s.client.threads (s.client.pending ++ [_])).find? id = _
    rw [applyPending, List.foldl_append]
    change (overlay (applyPending s.client.threads s.client.pending) _).find? id = _
    rw [find?_overlay, hagrees id]
    split_ifs with hid
    · rw [← hid, hmine]
      rfl
    · rfl
  have hsame : s'.Agrees ↔ applyShelfCommand mine call.command at_ (maxPinOrder s.client.threads) =
      applyShelfCommand mine call.command at_ s.bridge.maxPinOrder := by
    constructor
    · intro hnext
      have hthread := hnext call.command.threadId
      rw [hpending, hview, if_pos rfl, if_pos rfl] at hthread
      exact Option.some.inj hthread
    · intro heq id
      rw [hpending, hview, heq]
  rw [hsame, applyShelfCommand_inj]
  constructor
  · intro hknown id found hpin hfound hnot
    have hfoundThread : found = thread := by
      rw [hpin] at hfind
      exact Option.some.inj (hfound.symm.trans hfind)
    obtain heq | hother := hknown
    · exact heq.symm
    · refine absurd ⟨id, hpin, ?_, ?_⟩ hother
      · rw [hshelf]
        exact hlive id hpin
      · rw [hshelf, ← hfoundThread]
        exact hnot
  · intro hknows
    by_cases hpin : ∃ id, call.command = .pin id none ∧ mine.shelf ≠ .archived ∧ mine.shelf ≠ .pinned
    · obtain ⟨id, hpin, -, hnot⟩ := hpin
      rw [hpin] at hfind
      exact .inl (hknows id thread hpin hfind (hshelf ▸ hnot)).symm
    · exact .inr hpin

theorem throughout_iff (h : s.Linked) (hagrees : s.Agrees) (calls : List ShelfCall) :
    Throughout at_ (fun _ _ after => after.Agrees) s calls ↔
      Throughout at_ (fun before call _ => before.KnowsTop call) s calls := by
  induction calls generalizing s with
  | nil => exact Iff.rfl
  | cons call calls ih =>
    simp only [Throughout]
    cases hstep : s.step at_ call with
    | none => exact ih h hagrees
    | some s' =>
      have hone := agrees_step h hagrees hstep
      constructor
      · rintro ⟨hafter, hrest⟩
        exact ⟨hone.mp hafter, (ih (shown_of_step h hstep).1 hafter).mp hrest⟩
      · rintro ⟨hknows, hrest⟩
        have hafter := hone.mpr hknows
        exact ⟨hafter, (ih (shown_of_step h hstep).1 hafter).mpr hrest⟩

end Foretold

/-- From any store and for any list of commands, the sidebar shows after each accepted one what the bridge makes of
them exactly if each finds the highest pin order that the stream shows; and in every run of answers, events and
timers, once all commands are answered and the stream has reached the answers, it shows the stream's threads. -/
theorem sidebar_foretells (p : Projection) (sequence : Nat) (at_ : Int) (calls : List ShelfCall) :
    (Foretold.Throughout at_ (fun _ _ after => after.Agrees) (.start p sequence) calls ↔
      Foretold.Throughout at_ (fun before call _ => before.KnowsTop call) (.start p sequence) calls) ∧
    ∀ threads seq w, Runs.Run PendingShelf.step (fun _ _ => True) (.start threads seq) w →
      w.inFlight = [] → (∀ q ∈ w.replies, q ≤ w.sequence) →
        w.pending = [] ∧ applyPending w.threads w.pending = w.threads := by
  refine ⟨Foretold.throughout_iff (Foretold.linked_start p sequence) (Foretold.agrees_start p sequence) calls, ?_⟩
  intro threads seq w hrun hanswered hreached
  have hsound : w.Sound :=
    hrun.invariant (P := PendingShelf.Sound) (fun _ _ _ h _ hstep => h.step hstep) fun p hp => (by cases hp)
  have hnone := hsound.settled hanswered hreached
  exact ⟨hnone, by rw [hnone]; rfl⟩

def twoThreads : Projection :=
  match Db.empty.appends [{
    drafts := [createProject (testProject "w1"), createThread (testThread "t1"), createThread (testThread "t2")]
    ts := 1000 }] with
  | .ok (db, _) => db.projection
  | .error _ => .empty

def pinCall (id : String) (sequence : Nat) : ShelfCall where
  commandId := id
  command := .pin id none
  paneAlive := true
  sequence

/-- A pin, shown at once and confirmed by the stream. -/
theorem sidebar_foretells_pin :
    Foretold.Throughout 2000 (fun _ _ after => after.Agrees) (.start twoThreads 3) [pinCall "t1" 4] ∧
      ∃ w : PendingShelf, w.replies = [4] ∧ w.sent = ["c1"] ∧
        w.pending = [] ∧ applyPending w.threads w.pending = w.threads := by
  have htop : Foretold.Throughout 2000 (fun before call _ => before.KnowsTop call) (.start twoThreads 3)
      [pinCall "t1" 4] := by
    simp only [Foretold.Throughout]
    split
    · trivial
    · exact ⟨fun _ _ _ _ _ => by decide +kernel, trivial⟩
  have hrun : (Runs.exec PendingShelf.step (fun _ _ => True) (.start (shellThreads twoThreads) 3)
      [.send "c1" (.pin "t1" none) 2000, .replied "c1" 4, .stream (shellThreads twoThreads) 4]).isSome := rfl
  refine ⟨(sidebar_foretells twoThreads 3 2000 [pinCall "t1" 4]).1.mpr htop, Option.get _ hrun, rfl, rfl, ?_⟩
  exact (sidebar_foretells twoThreads 3 2000 []).2 _ _ _
    (Runs.run_of_exec (Option.some_get hrun).symm) rfl fun q (hq : q ∈ [4]) => Nat.le_of_eq (List.mem_singleton.mp hq)

/-- Of two pins one after another, the bridge puts the second above the first; the sidebar gives both one place. -/
theorem sidebar_repeats_pinOrder : ¬∀ (p : Projection) (sequence : Nat) (at_ : Int) (calls : List ShelfCall),
      Foretold.Throughout at_ (fun _ _ after => after.Agrees) (.start p sequence) calls := by
  intro h
  have hboth := h twoThreads 3 2000 [pinCall "t1" 4, pinCall "t2" 5]
  have hplace : ∃ s s', (Foretold.start twoThreads 3).step 2000 (pinCall "t1" 4) = some s ∧
      s.step 2000 (pinCall "t2" 5) = some s' ∧
      ((applyPending s'.client.threads s'.client.pending).find? "t2").map ThreadOf.pinOrder = some (some 1) ∧
      (s'.shown.find? "t2").map ThreadOf.pinOrder = some (some 2) :=
        ⟨_, _, rfl, rfl, by decide +kernel, by decide +kernel⟩
  obtain ⟨s, s', hfirst, hsecond, hmine, hshown⟩ := hplace
  simp only [Foretold.Throughout, hfirst, hsecond] at hboth
  have hagree := hboth.2.1 "t2"
  rw [hagree, hshown] at hmine
  exact absurd hmine (by decide +kernel)

end Client

end Sightr
