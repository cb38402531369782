import Sightr.Client.Sidebar

/-!
# Undoing a shelf command

`performThreadCommand` of `web2/src/state/sidebar.ts` keeps the thread's place before an unpin, a settle, a snooze
or an archive, and Undo sends the commands that take the thread from where the sidebar shows it back there, one after
another. The command itself may still be on its way then. A request may reach the bridge late and, as a POST that
fails is repeated under its id, more than once.
-/

namespace Sightr

namespace Client

open Keyed (Table)

/-! ### Places -/

structure ShelfPlace where
  shelf : Shelf
  pinOrder : Option Rat
  snoozedUntil : Option Int
  deriving DecidableEq

def shelfPlace {Ref : Type} (thread : ThreadOf Ref) : ShelfPlace :=
  ⟨thread.shelf, thread.pinOrder, thread.snoozedUntil⟩

namespace ShelfPlace

/-- A place with what its shelf reads: a pinned thread's order, a snoozed one's wake time. -/
def standing (place : ShelfPlace) : ShelfPlace where
  shelf := place.shelf
  pinOrder := if place.shelf = .pinned then place.pinOrder else none
  snoozedUntil := if place.shelf = .snoozed then place.snoozedUntil else none

/-- A pinned place has its order, and a snoozed one its wake time. -/
def complete (place : ShelfPlace) : Bool :=
  (place.shelf ≠ .pinned || place.pinOrder.isSome) && (place.shelf ≠ .snoozed || place.snoozedUntil.isSome)

end ShelfPlace

/-- The command that takes a thread to Active, where one does. -/
def toActive (threadId : String) : Shelf → List ShelfCommand
  | .pinned => [.unpin threadId]
  | .settled => [.unsettle threadId]
  | .snoozed => [.unsnooze threadId]
  | .active | .archived => []

/-- The commands that take a thread now on `current` back to `previous`, in order. A snooze whose wake time has passed
restores to Active. -/
def restoreShelfCommands (threadId : String) (current : Shelf) (previous : ShelfPlace) (now : Int) :
    List ShelfCommand :=
  let unarchive := current = .archived ∧ previous.shelf ≠ .archived
  let here := if unarchive then Shelf.active else current
  (if unarchive then [.unarchive threadId] else []) ++
    match previous.shelf with
    | .archived => if here ≠ .archived then [.archive threadId] else []
    | .pinned => [.pin threadId previous.pinOrder]
    | .settled => if here ≠ .settled then [.settle threadId] else []
    | .snoozed =>
      match previous.snoozedUntil.filter (now < ·) with
      | some until_ => [.snooze threadId until_]
      | none => toActive threadId here
    | .active => toActive threadId here

/-! ### The page and the bridge -/

inductive UndoAction
  | unpin
  | settle
  | snooze (until_ : Int)
  | archive
  deriving DecidableEq

def UndoAction.command (threadId : String) : UndoAction → ShelfCommand
  | unpin => .unpin threadId
  | settle => .settle threadId
  | snooze until_ => .snooze threadId until_
  | archive => .archive threadId

structure UndoableChange where
  threadId : String
  commandId : String
  action : UndoAction

inductive UndoPhase
  | resting
  | offered
  /-- A command of the undo is sent; the rest follow its answer. -/
  | undoing (commandId : String) (command : ShelfCommand) (rest : List ShelfCommand)
  | undone
  /-- The change failed before Undo was tapped, or a command of the undo did. -/
  | failed
  deriving DecidableEq

structure UndoWorld where
  bridge : Projection
  head : Nat
  /-- The accepted commands, with the sequences they were answered. -/
  receipts : List (String × Nat)
  commits : List (Nat × Threads)
  client : PendingShelf
  now : Int
  place : Option ShelfPlace
  phase : UndoPhase
  /-- The requests that went out: each may arrive, now or again. -/
  posted : List (String × ShelfCommand)

namespace UndoWorld

/-- Nothing is sent, and the sidebar shows what the bridge has. -/
def start (bridge : Projection) (head : Nat) (now : Int) : UndoWorld where
  bridge
  head
  receipts := []
  commits := [(head, shellThreads bridge)]
  client := .start (shellThreads bridge) head
  now
  place := none
  phase := .resting
  posted := []

inductive Action
  /-- Anything else at the bridge that leaves the thread where it is. -/
  | other (event : StoredEvent)
  /-- The bridge wakes the thread, its snooze being over. -/
  | wake
  | tick (ms : Nat)
  | command
  | arrive (commandId : String)
  /-- An accepted command is answered; `newId` is the next command's. -/
  | answered (commandId newId : String)
  /-- A command is refused, or its repeated POST failed too. -/
  | failed (commandId : String)
  | undo (newId : String)
  | stream (sequence : Nat) (threads : Threads)
  | grace (commandId : String)

variable (change : UndoableChange) (s : UndoWorld)

def standing : Option ShelfPlace := (s.bridge.threads.find? change.threadId).map fun row => (shelfPlace row).standing

def currentThread : Option Thread := (applyPending s.client.threads s.client.pending).find? change.threadId

def commit (event : StoredEvent) : Option UndoWorld :=
  if event.sequence = s.head + 1 then
    match s.bridge.applyEvent event with
    | .ok bridge =>
      some { s with bridge, head := event.sequence, commits := s.commits ++ [(event.sequence, shellThreads bridge)] }
    | .error _ => none
  else none

def send (commandId : String) (command : ShelfCommand) : Option UndoWorld :=
  if (s.receipts.lookup commandId).isSome then none
  else
    (s.client.step (.send commandId command s.now)).map fun client =>
      { s with client, posted := s.posted ++ [(commandId, command)] }

def sendNext (newId : String) : List ShelfCommand → Option UndoWorld
  | [] => some { s with phase := .undone }
  | command :: rest => (s.send newId command).map fun s => { s with phase := .undoing newId command rest }

/-- The bridge takes a command that it has no receipt for; a refused one leaves nothing. -/
def take (commandId : String) (command : ShelfCommand) : UndoWorld :=
  match bridgeAnswer s.now s.bridge { commandId, command, paneAlive := true, sequence := s.head + 1 } with
  | none => s
  | some (bridge, []) => { s with bridge, receipts := s.receipts ++ [(commandId, s.head)] }
  | some (bridge, _ :: _) =>
    { s with
      bridge
      head := s.head + 1
      receipts := s.receipts ++ [(commandId, s.head + 1)]
      commits := s.commits ++ [(s.head + 1, shellThreads bridge)] }

def wakeEvent : StoredEvent where
  sequence := s.head + 1
  threadId := some change.threadId
  commandId := none
  payload := .threadShelfChanged .active none none s.now
  ts := s.now

def step : Action → Option UndoWorld
  | .other event => (s.commit event).filter fun t => t.standing change = s.standing change
  | .wake =>
    if (s.standing change).any fun place => place.shelf = .snoozed && place.snoozedUntil.any (· ≤ s.now) then
      s.commit (s.wakeEvent change)
    else none
  | .tick ms => some { s with now := s.now + ms }
  | .command =>
    match s.phase, s.currentThread change with
    | .resting, some before =>
      (s.send change.commandId (change.action.command change.threadId)).map fun s =>
        { s with place := some (shelfPlace before), phase := .offered }
    | _, _ => none
  | .arrive commandId =>
    (s.posted.lookup commandId).map fun command =>
      if (s.receipts.lookup commandId).isSome then s else s.take commandId command
  | .answered commandId newId =>
    (s.receipts.lookup commandId).bind fun sequence =>
      (s.client.step (.replied commandId sequence)).bind fun client =>
        let s := { s with client }
        match s.phase with
        | .undoing current _ rest => if commandId = current then s.sendNext newId rest else some s
        | _ => some s
  | .failed commandId =>
    (s.client.step (.failed commandId)).map fun client =>
      { s with
        client
        phase :=
          match s.phase with
          | .offered => .failed
          | .undoing current command rest => if commandId = current then .failed else .undoing current command rest
          | phase => phase }
  | .undo newId =>
    match s.phase, s.place, s.currentThread change with
    | .offered, some place, some thread =>
      s.sendNext newId (restoreShelfCommands change.threadId thread.shelf place s.now)
    | _, _, _ => none
  | .stream sequence threads =>
    if s.client.sequence ≤ sequence ∧ (sequence, threads) ∈ s.commits then
      (s.client.step (.stream threads sequence)).map fun client => { s with client }
    else none
  | .grace commandId =>
    if commandId ∈ s.client.sent ∧ commandId ∉ s.client.inFlight then
      (s.client.step (.grace commandId)).map fun client => { s with client }
    else none

/-! ### What Undo promises -/

/-- The thread stands at the place, or awake where the place was a snooze that is over. -/
def Woken (now : Int) (place here : ShelfPlace) : Prop :=
  here = place ∨
    place.shelf = .snoozed ∧ (∃ until_ ∈ place.snoozedUntil, until_ ≤ now) ∧ here = ⟨.active, none, none⟩

/-- Once every command is accepted the bridge has the thread back; the sidebar shows it there once the answers and the
stream have come. -/
def Restored : Prop :=
  s.phase = .undone → (s.receipts.lookup change.commandId).isSome = true →
    ∃ place here, s.place = some place ∧ s.standing change = some here ∧ Woken s.now place.standing here ∧
      (s.client.inFlight = [] → s.client.sequence = s.head →
        (s.currentThread change).map (fun thread => (shelfPlace thread).standing) = some here)

/-! ### When it keeps it -/

def goes (place : ShelfPlace) : ShelfCommand → ShelfPlace
  | .pin _ pinOrder => ⟨.pinned, pinOrder, none⟩
  | .unpin _ => if place.shelf = .pinned then ⟨.active, none, none⟩ else place
  | .snooze _ until_ => ⟨.snoozed, none, some until_⟩
  | .unsnooze _ => if place.shelf = .snoozed then ⟨.active, none, none⟩ else place
  | .settle _ => ⟨.settled, none, none⟩
  | .unsettle _ => if place.shelf = .settled then ⟨.active, none, none⟩ else place
  | .archive _ => ⟨.archived, none, none⟩
  | .unarchive _ => if place.shelf = .archived then ⟨.active, none, none⟩ else place
  | .rename .. | .markRead _ | .markUnread _ => place

/-- The sidebar shows the thread on the shelf that the command leaves it on, or on the one where the bridge has it
since; or one command restores the place from any shelf. -/
def showsChange (place : ShelfPlace) (shown : Shelf) : Bool :=
  shown = (goes place.standing (change.action.command change.threadId)).shelf ||
    ((s.receipts.lookup change.commandId).isSome && (s.standing change).any fun here => here.shelf = shown) ||
    place.shelf = .pinned || (place.shelf = .snoozed && place.snoozedUntil.any (s.now < ·))

/-- The kept place is complete; Undo is tapped where the sidebar shows the change; and the bridge takes the change
before the undo's commands, unless the change leaves the thread where it was. -/
def steady : Action → Bool
  | .command => (s.currentThread change).all fun thread => (shelfPlace thread).complete
  | .undo _ =>
    s.place.all fun place => (s.currentThread change).all fun thread => s.showsChange change place thread.shelf
  | .arrive commandId =>
    commandId = change.commandId || (s.receipts.lookup change.commandId).isSome ||
      s.place.any fun place =>
        goes place.standing (change.action.command change.threadId) = place.standing
  | _ => true

/-! ### Places and commands -/

variable {change : UndoableChange} {s t : UndoWorld} {now now' : Int} {place here next : ShelfPlace}
  {command : ShelfCommand} {commands : List ShelfCommand}

theorem standing_standing (place : ShelfPlace) : place.standing.standing = place.standing := by
  unfold ShelfPlace.standing
  split_ifs <;> rfl

theorem standing_goes (h : place.standing = place) (command : ShelfCommand) :
    (goes place command).standing = goes place command := by
  unfold goes
  cases command with
  | unpin | unsnooze | unsettle | unarchive =>
    dsimp only
    split_ifs
    · rfl
    · exact h
  | pin | snooze | settle | archive => rfl
  | rename | markRead | markUnread => exact h

section

variable (h : Woken now place here)
include h

theorem Woken.mono (hnow : now ≤ now') : Woken now' place here := by
  rcases h with hsame | ⟨hshelf, ⟨until_, hmem, hpast⟩, hactive⟩
  · exact .inl hsame
  · exact .inr ⟨hshelf, ⟨until_, hmem, hpast.trans hnow⟩, hactive⟩

theorem Woken.trans (h' : Woken now here next) : Woken now place next := by
  rcases h with rfl | ⟨hshelf, htime, rfl⟩
  · exact h'
  · rcases h' with rfl | ⟨hsnoozed, -⟩
    · exact .inr ⟨hshelf, htime, rfl⟩
    · cases hsnoozed

theorem Woken.goes (command : ShelfCommand) : Woken now (goes place command) (goes here command) := by
  rcases h with rfl | ⟨hshelf, htime, rfl⟩
  · exact .inl rfl
  · cases command with
    | pin | snooze | settle | archive => exact .inl rfl
    | unsnooze => exact .inl (by simp [UndoWorld.goes, hshelf])
    | unpin | unsettle | unarchive =>
      refine .inr ⟨?_, ?_, ?_⟩ <;> simp only [UndoWorld.goes, hshelf, reduceCtorEq, if_false]
      exact htime
    | rename | markRead | markUnread => exact .inr ⟨hshelf, htime, rfl⟩

end

/-- Accepted one after another, the commands take the thread to the place. -/
def Leads (now : Int) (place here : ShelfPlace) (commands : List ShelfCommand) : Prop :=
  Woken now place (commands.foldl goes here)

theorem Leads.woken (h : Leads now place here commands) (hwoken : Woken now here next) :
    Leads now place next commands := by
  have hall : Woken now (commands.foldl UndoWorld.goes here) (commands.foldl UndoWorld.goes next) := by
    clear h
    induction commands generalizing here next with
    | nil => exact hwoken
    | cons command commands ih => exact ih (hwoken.goes command)
  exact Woken.trans h hall

theorem eq_of_standing (h : here.standing = here) (hpinned : here.shelf ≠ .pinned)
    (hsnoozed : here.shelf ≠ .snoozed) : here = ⟨here.shelf, none, none⟩ := by
  rw [← h]
  simp [ShelfPlace.standing, hpinned, hsnoozed]

variable (threadId : String)

theorem goes_toActive (hplace : place.shelf ≠ .archived) (htidy : here.standing = here) :
    ((if here.shelf = .archived ∧ place.shelf ≠ .archived then [ShelfCommand.unarchive threadId] else []) ++
      toActive threadId (if here.shelf = .archived ∧ place.shelf ≠ .archived then .active else here.shelf)).foldl
        goes here = ⟨.active, none, none⟩ := by
  cases hshelf : here.shelf with
  | active =>
    have hsame := eq_of_standing htidy (by simp [hshelf]) (by simp [hshelf])
    simpa [toActive, hshelf] using hsame
  | archived => simp [toActive, goes, hshelf, hplace]
  | pinned | settled | snoozed => simp [toActive, goes, hshelf]

/-- From where the sidebar shows the thread, the restoring commands take it back; a pin or a snooze takes it back from
anywhere. -/
theorem leads_restore {shown : Shelf} (hcomplete : place.complete = true) (htidy : here.standing = here)
    (hshown : shown = here.shelf ∨ place.shelf = .pinned ∨
      place.shelf = .snoozed ∧ place.snoozedUntil.any (now < ·) = true) :
    Leads now place.standing here (restoreShelfCommands threadId shown place now) := by
  cases hplace : place.shelf with
  | pinned =>
    refine .inl ?_
    by_cases harchived : shown = .archived <;>
      simp [restoreShelfCommands, goes, ShelfPlace.standing, hplace, harchived]
  | snoozed =>
    obtain ⟨until_, huntil⟩ : ∃ until_, place.snoozedUntil = some until_ := by
      simpa [ShelfPlace.complete, hplace, Option.isSome_iff_exists] using hcomplete
    by_cases hahead : now < until_
    · refine .inl ?_
      by_cases harchived : shown = .archived <;>
        simp [restoreShelfCommands, goes, ShelfPlace.standing, hplace, huntil, hahead, harchived, Option.filter_some]
    · obtain rfl : shown = here.shelf := by simpa [hplace, huntil, hahead] using hshown
      refine .inr ⟨hplace, ⟨until_, ?_, Int.not_lt.mp hahead⟩, ?_⟩
      · simp [ShelfPlace.standing, hplace, huntil]
      · have hactive := goes_toActive threadId (hplace.trans_ne (by simp)) htidy
        simpa [restoreShelfCommands, hplace, huntil, hahead, Option.filter_some] using hactive
  | active =>
    obtain rfl : shown = here.shelf := by simpa [hplace] using hshown
    refine .inl ?_
    have hactive := goes_toActive threadId (hplace.trans_ne (by simp)) htidy
    simpa [restoreShelfCommands, ShelfPlace.standing, hplace] using hactive
  | settled =>
    obtain rfl : shown = here.shelf := by simpa [hplace] using hshown
    refine .inl ?_
    by_cases hsettled : here.shelf = .settled
    · have hsame := eq_of_standing htidy (by simp [hsettled]) (by simp [hsettled])
      rw [hsettled] at hsame
      simpa [restoreShelfCommands, ShelfPlace.standing, hplace, hsettled] using hsame
    · by_cases harchived : here.shelf = .archived <;>
        simp [restoreShelfCommands, goes, ShelfPlace.standing, hplace, hsettled, harchived]
  | archived =>
    obtain rfl : shown = here.shelf := by simpa [hplace] using hshown
    refine .inl ?_
    by_cases harchived : here.shelf = .archived
    · have hsame := eq_of_standing htidy (by simp [harchived]) (by simp [harchived])
      rw [harchived] at hsame
      simpa [restoreShelfCommands, ShelfPlace.standing, hplace, harchived] using hsame
    · simp [restoreShelfCommands, goes, ShelfPlace.standing, hplace, harchived]

theorem fits_restore (shown : Shelf) (now : Int) (hcomplete : place.complete = true) :
    ∀ command ∈ restoreShelfCommands threadId shown place now,
      command.threadId = threadId ∧ ∀ id, command ≠ .pin id none := by
  have hactive (here : Shelf) : ∀ command ∈ toActive threadId here,
      command.threadId = threadId ∧ ∀ id, command ≠ .pin id none := by
    cases here <;> simp [toActive, ShelfCommand.threadId]
  intro command hmem
  rcases List.mem_append.mp hmem with hmem | hmem
  · split_ifs at hmem
    · rw [List.mem_singleton.mp hmem]
      exact ⟨rfl, fun _ => by simp⟩
    · cases hmem
  · cases hplace : place.shelf with
    | pinned =>
      obtain ⟨order, horder⟩ : ∃ order, place.pinOrder = some order := by
        simpa [ShelfPlace.complete, hplace, Option.isSome_iff_exists] using hcomplete
      simp only [hplace, horder, List.mem_singleton] at hmem
      rw [hmem]
      exact ⟨rfl, fun _ => by simp⟩
    | snoozed =>
      simp only [hplace] at hmem
      split at hmem
      · rw [List.mem_singleton.mp hmem]
        exact ⟨rfl, fun _ => by simp⟩
      · exact hactive _ command hmem
    | active =>
      simp only [hplace] at hmem
      exact hactive _ command hmem
    | settled | archived =>
      simp only [hplace] at hmem
      rw [List.mem_singleton.mp (List.mem_ite_nil_right.mp hmem).2]
      exact ⟨rfl, fun _ => by simp⟩

theorem keeps_restore_snooze (shown : Shelf) (hsnoozed : place.shelf = .snoozed)
    (hahead : place.snoozedUntil.any (now < ·) = true) :
    ∀ command ∈ restoreShelfCommands threadId shown place now, goes place.standing command = place.standing := by
  obtain ⟨until_, huntil, hlater⟩ := (Option.any_eq_true _ _).mp hahead
  by_cases harchived : shown = .archived <;>
    simp_all [restoreShelfCommands, goes, ShelfPlace.standing, Option.filter_some]

theorem keeps_restore (hcomplete : place.complete = true) (hpinned : place.shelf ≠ .pinned)
    (hhere : Woken now place.standing here) :
    ∀ command ∈ restoreShelfCommands threadId here.shelf place now,
      Woken now place.standing (goes place.standing command) := by
  intro command hmem
  by_cases hahead : place.shelf = .snoozed ∧ place.snoozedUntil.any (now < ·) = true
  · exact .inl (keeps_restore_snooze threadId _ hahead.1 hahead.2 command hmem)
  · have hshelf : here.shelf = place.shelf ∨ place.shelf = .snoozed ∧ here.shelf = .active := by
      rcases hhere with rfl | ⟨hsnoozed, -, rfl⟩
      · exact .inl rfl
      · exact .inr ⟨hsnoozed, rfl⟩
    cases hplace : place.shelf with
    | pinned => exact absurd hplace hpinned
    | active | settled | archived =>
      have hsame : here.shelf = place.shelf := by simpa [hplace] using hshelf
      simp [restoreShelfCommands, toActive, hplace, hsame] at hmem
    | snoozed =>
      obtain ⟨until_, huntil⟩ : ∃ until_, place.snoozedUntil = some until_ := by
        simpa [ShelfPlace.complete, hplace, Option.isSome_iff_exists] using hcomplete
      have hpast : until_ ≤ now := by simpa [hplace, huntil] using hahead
      rcases hshelf with hsame | ⟨-, hsame⟩
      · have hwake : command = .unsnooze threadId := by
          simpa [restoreShelfCommands, toActive, hplace, hsame, huntil, hpast.not_gt, Option.filter_some] using hmem
        rw [hwake]
        refine .inr ⟨hplace, ⟨until_, ?_, hpast⟩, ?_⟩ <;> simp [goes, ShelfPlace.standing, hplace, huntil]
      · simp [restoreShelfCommands, toActive, hplace, hsame, huntil, hpast.not_gt, Option.filter_some] at hmem

/-! ### The bridge takes a command -/

theorem standing_leave (thread : Thread) (shelf : Shelf) (at_ : Int) :
    (shelfPlace (if thread.shelf = shelf then onShelf thread .active at_ else thread)).standing =
      if (shelfPlace thread).standing.shelf = shelf then ⟨.active, none, none⟩ else (shelfPlace thread).standing := by
  change _ = if thread.shelf = shelf then _ else _
  split_ifs <;> rfl

theorem standing_applyShelfCommand {thread : Thread} {at_ : Int} (top : Rat) (hfits : command.Fits thread.shelf at_)
    (hpin : ∀ id, command ≠ .pin id none) :
    (shelfPlace (applyShelfCommand thread command at_ top)).standing = goes (shelfPlace thread).standing command := by
  cases command with
  | pin id pinOrder =>
    obtain _ | order := pinOrder
    · exact absurd rfl (hpin id)
    · have hlive : thread.shelf ≠ .archived := hfits
      by_cases hsame : thread.shelf = .pinned ∧ some order = thread.pinOrder
      · simp [applyShelfCommand, shelfPlace, ShelfPlace.standing, goes, hsame.1, ← hsame.2]
      · simp [applyShelfCommand, onShelf, shelfPlace, ShelfPlace.standing, goes, hlive, hsame]
  | snooze id until_ =>
    obtain ⟨hlive, hahead⟩ := hfits
    simp only [applyShelfCommand, hlive, not_le.mpr hahead, or_self, if_false]
    rfl
  | settle id =>
    have hlive : thread.shelf ≠ .archived := hfits
    simp only [applyShelfCommand, hlive, false_or]
    split_ifs with hsettled
    · simp [shelfPlace, ShelfPlace.standing, goes, hsettled]
    · rfl
  | archive id =>
    simp only [applyShelfCommand]
    split_ifs with harchived
    · simp [shelfPlace, ShelfPlace.standing, goes, harchived]
    · rfl
  | unpin | unsnooze | unsettle | unarchive => exact standing_leave thread _ at_
  | rename id title | markRead id | markUnread id =>
    simp only [applyShelfCommand, goes]
    split_ifs <;> rfl

theorem take_cases (s : UndoWorld) (commandId : String) (command : ShelfCommand) : s.take commandId command = s ∨
      ∃ bridge events head commits,
        bridgeAnswer s.now s.bridge { commandId, command, paneAlive := true, sequence := s.head + 1 } =
          some (bridge, events) ∧
        s.take commandId command = { s with bridge, head, receipts := s.receipts ++ [(commandId, head)], commits } ∧
        (bridge = s.bridge ∧ head = s.head ∧ commits = s.commits ∨
          head = s.head + 1 ∧ commits = s.commits ++ [(head, shellThreads bridge)]) := by
  unfold take
  split
  · exact .inl rfl
  · next bridge hanswer =>
    refine .inr ⟨bridge, [], s.head, s.commits, hanswer, rfl, .inl ⟨?_, rfl, rfl⟩⟩
    unfold bridgeAnswer at hanswer
    dsimp only at hanswer
    split at hanswer
    · cases hanswer
    · split at hanswer
      · next hfold =>
        obtain ⟨rfl, hevents⟩ := Prod.mk.inj (Option.some.inj hanswer)
        rw [hevents] at hfold
        exact (Except.ok.inj hfold).symm
      · cases hanswer
  · next bridge event events hanswer =>
    exact .inr ⟨bridge, event :: events, s.head + 1, _, hanswer, rfl, .inr ⟨rfl, rfl⟩⟩

theorem standing_of_answer {bridge : Projection} {events : List StoredEvent} {commandId : String}
    (hanswer : bridgeAnswer s.now s.bridge { commandId, command, paneAlive := true, sequence := s.head + 1 } =
      some (bridge, events))
    (hid : command.threadId = change.threadId) (hpin : ∀ id, command ≠ .pin id none)
    (hhere : s.standing change = some here) :
    (bridge.threads.find? change.threadId).map (fun row => (shelfPlace row).standing) = some (goes here command) := by
  obtain ⟨row, hrow, rfl⟩ := Option.map_eq_some_iff.mp hhere
  rw [← hid] at hrow ⊢
  obtain ⟨row', hrow', hsame⟩ := Foretold.row_of_bridgeAnswer hanswer hrow
  have hplace := congrArg shelfPlace hsame
  change shelfPlace (toWireThread row') = shelfPlace (applyShelfCommand (toWireThread row) command s.now _) at hplace
  rw [hrow']
  change some (shelfPlace (toWireThread row')).standing = _
  rw [hplace, standing_applyShelfCommand _ (fits_of_bridgeAnswer hanswer hrow) hpin]
  rfl

/-! ### The stream -/

theorem fields_of_step {w w' : PendingShelf} {event : PendingShelf.Event} (h : w.step event = some w') :
    match event with
    | .send commandId _ _ =>
      commandId ∉ w.sent ∧ w'.sent = w.sent ++ [commandId] ∧ w'.replies = w.replies ∧ w'.threads = w.threads ∧
        w'.sequence = w.sequence
    | .replied _ sequence =>
      w'.sent = w.sent ∧ w'.replies = w.replies ++ [sequence] ∧ w'.threads = w.threads ∧ w'.sequence = w.sequence ∧
        (w.pending = [] → w'.pending = [])
    | .stream threads sequence =>
      w'.sent = w.sent ∧ w'.replies = w.replies ∧ w'.threads = threads ∧ w'.sequence = sequence ∧
        (w.pending = [] → w'.pending = [])
    | .failed _ | .grace _ =>
      w'.sent = w.sent ∧ w'.replies = w.replies ∧ w'.threads = w.threads ∧ w'.sequence = w.sequence ∧
        (w.pending = [] → w'.pending = []) := by
  cases event with
  | send commandId command at_ =>
    simp only [PendingShelf.step] at h
    split_ifs at h with hsent
    cases h
    exact ⟨hsent, rfl, rfl, rfl, rfl⟩
  | replied commandId sequence =>
    simp only [PendingShelf.step] at h
    split_ifs at h with hflight hreached <;> cases h
    · exact ⟨rfl, rfl, rfl, rfl, fun hnone => by simp [PendingShelf.drop, PendingShelf.answered, hnone]⟩
    · exact ⟨rfl, rfl, rfl, rfl, fun hnone => by simp [PendingShelf.confirm, PendingShelf.answered, hnone]⟩
  | failed commandId =>
    simp only [PendingShelf.step] at h
    split_ifs at h
    cases h
    exact ⟨rfl, List.append_nil _, rfl, rfl, fun hnone => by simp [PendingShelf.drop, PendingShelf.answered, hnone]⟩
  | stream threads sequence =>
    simp only [PendingShelf.step] at h
    split_ifs at h <;> cases h
    · exact ⟨rfl, rfl, rfl, rfl, fun hnone => by simp [PendingShelf.pruneConfirmed, hnone]⟩
    · exact ⟨rfl, rfl, rfl, rfl, fun hnone => hnone⟩
  | grace commandId =>
    cases h
    exact ⟨rfl, rfl, rfl, rfl, fun hnone => by simp [PendingShelf.drop, hnone]⟩

/-- The sidebar's threads are a state the bridge had, and no sequence is ahead of the store. -/
structure Synced (s : UndoWorld) : Prop where
  sound : s.client.Sound
  replies : ∀ q ∈ s.client.replies, q ≤ s.head
  receipts : ∀ r ∈ s.receipts, r.2 ≤ s.head
  commits : ∀ c ∈ s.commits, c.1 ≤ s.head ∧ (c.1 = s.head → c.2 = shellThreads s.bridge)
  shown : (s.client.sequence, s.client.threads) ∈ s.commits

namespace Synced

section

variable (h : s.Synced)
include h

private theorem stored (bridge : Projection) (receipts : List (String × Nat))
    (hreceipts : ∀ r ∈ receipts, r.2 ≤ s.head + 1) :
    Synced { s with
      bridge, receipts, head := s.head + 1, commits := s.commits ++ [(s.head + 1, shellThreads bridge)] } where
  sound := h.sound
  replies q hq := (h.replies q hq).trans (Nat.le_succ _)
  receipts := hreceipts
  commits c hc := by
    rcases List.mem_append.mp hc with hc | hc
    · have hle : c.1 ≤ s.head := (h.commits c hc).1
      exact ⟨hle.trans (Nat.le_succ _), fun hlast => absurd hlast (by change c.1 ≠ s.head + 1; omega)⟩
    · obtain rfl := List.mem_singleton.mp hc
      exact ⟨le_rfl, fun _ => rfl⟩
  shown := List.mem_append_left _ h.shown

private theorem commit {event : StoredEvent} (hcommit : s.commit event = some t) : t.Synced := by
  unfold UndoWorld.commit at hcommit
  split_ifs at hcommit with hnext
  split at hcommit
  · next bridge _ =>
    cases hcommit
    rw [hnext]
    exact h.stored bridge s.receipts fun r hr => (h.receipts r hr).trans (Nat.le_succ _)
  · cases hcommit

private theorem send {commandId : String} (hsend : s.send commandId command = some t) : t.Synced := by
  unfold UndoWorld.send at hsend
  split_ifs at hsend
  obtain ⟨client, hstep, rfl⟩ := Option.map_eq_some_iff.mp hsend
  obtain ⟨-, -, hreplies, hthreads, hsequence⟩ := fields_of_step hstep
  exact ⟨h.sound.step hstep, hreplies ▸ h.replies, h.receipts, h.commits,
    by rw [hthreads, hsequence]; exact h.shown⟩

private theorem sendNext {newId : String} (hsend : s.sendNext newId commands = some t) : t.Synced := by
  cases commands with
  | nil =>
    cases hsend
    exact ⟨h.sound, h.replies, h.receipts, h.commits, h.shown⟩
  | cons command rest =>
    obtain ⟨m, hm, rfl⟩ := Option.map_eq_some_iff.mp hsend
    have hsent := h.send hm
    exact ⟨hsent.sound, hsent.replies, hsent.receipts, hsent.commits, hsent.shown⟩

private theorem take (commandId : String) (command : ShelfCommand) : (s.take commandId command).Synced := by
  rcases take_cases s commandId command with hsame | ⟨bridge, -, head, commits, -, htake, hstore⟩
  · rwa [hsame]
  · rw [htake]
    have hadded (hle : s.head ≤ head) : ∀ r ∈ s.receipts ++ [(commandId, head)], r.2 ≤ head := by
      intro r hr
      rcases List.mem_append.mp hr with hr | hr
      · exact (h.receipts r hr).trans hle
      · rw [List.mem_singleton.mp hr]
    rcases hstore with ⟨rfl, rfl, rfl⟩ | ⟨rfl, rfl⟩
    · exact ⟨h.sound, h.replies, hadded le_rfl, h.commits, h.shown⟩
    · exact h.stored bridge _ (hadded (Nat.le_succ _))

theorem step {action : Action} (hstep : s.step change action = some t) : t.Synced := by
  cases action with
  | other event => exact h.commit (Option.filter_eq_some_iff.mp hstep).1
  | wake =>
    simp only [UndoWorld.step] at hstep
    split_ifs at hstep
    exact h.commit hstep
  | tick ms =>
    cases hstep
    exact ⟨h.sound, h.replies, h.receipts, h.commits, h.shown⟩
  | command =>
    simp only [UndoWorld.step] at hstep
    split at hstep
    · obtain ⟨m, hm, rfl⟩ := Option.map_eq_some_iff.mp hstep
      have hsent := h.send hm
      exact ⟨hsent.sound, hsent.replies, hsent.receipts, hsent.commits, hsent.shown⟩
    · cases hstep
  | arrive commandId =>
    obtain ⟨command, -, rfl⟩ := Option.map_eq_some_iff.mp hstep
    split_ifs
    · exact h
    · exact h.take commandId command
  | answered commandId newId =>
    obtain ⟨sequence, hreceipt, hstep⟩ := Option.bind_eq_some_iff.mp hstep
    obtain ⟨client, hclient, hstep⟩ := Option.bind_eq_some_iff.mp hstep
    obtain ⟨-, hreplies, hthreads, hsequence, -⟩ := fields_of_step hclient
    have hknown : Synced { s with client } := by
      refine ⟨h.sound.step hclient, fun q hq => ?_, h.receipts, h.commits, ?_⟩
      · rw [hreplies] at hq
        rcases List.mem_append.mp hq with hq | hq
        · exact h.replies q hq
        · rw [List.mem_singleton.mp hq]
          obtain ⟨l, l', hlist, -⟩ := List.lookup_eq_some_iff.mp hreceipt
          exact h.receipts (commandId, sequence) (by simp [hlist])
      · rw [hthreads, hsequence]
        exact h.shown
    dsimp only at hstep
    split at hstep
    · split_ifs at hstep
      · exact hknown.sendNext hstep
      · exact Option.some.inj hstep ▸ hknown
    · exact Option.some.inj hstep ▸ hknown
  | failed commandId =>
    obtain ⟨client, hclient, rfl⟩ := Option.map_eq_some_iff.mp hstep
    obtain ⟨-, hreplies, hthreads, hsequence, -⟩ := fields_of_step hclient
    exact ⟨h.sound.step hclient, hreplies ▸ h.replies, h.receipts, h.commits,
      by rw [hthreads, hsequence]; exact h.shown⟩
  | undo newId =>
    simp only [UndoWorld.step] at hstep
    split at hstep
    · exact h.sendNext hstep
    · cases hstep
  | stream sequence threads =>
    simp only [UndoWorld.step] at hstep
    split_ifs at hstep with hcommit
    obtain ⟨client, hclient, rfl⟩ := Option.map_eq_some_iff.mp hstep
    obtain ⟨-, hreplies, hthreads, hsequence, -⟩ := fields_of_step hclient
    exact ⟨h.sound.step hclient, hreplies ▸ h.replies, h.receipts, h.commits,
      by rw [hthreads, hsequence]; exact hcommit.2⟩
  | grace commandId =>
    simp only [UndoWorld.step] at hstep
    split_ifs at hstep
    obtain ⟨client, hclient, rfl⟩ := Option.map_eq_some_iff.mp hstep
    obtain ⟨-, hreplies, hthreads, hsequence, -⟩ := fields_of_step hclient
    exact ⟨h.sound.step hclient, hreplies ▸ h.replies, h.receipts, h.commits,
      by rw [hthreads, hsequence]; exact h.shown⟩

end

end Synced

/-! ### The requests -/

abbrev Accepted (s : UndoWorld) (commandId : String) : Prop := (s.receipts.lookup commandId).isSome = true

theorem isSome_lookup_concat (l : List (String × Nat)) (id id' : String) (q : Nat) :
    ((l ++ [(id, q)]).lookup id').isSome = true ↔ (l.lookup id').isSome = true ∨ id' = id := by
  rw [List.lookup_append, Option.isSome_or, Bool.or_eq_true]
  refine or_congr_right ?_
  by_cases hid : id' = id
  · simp [hid]
  · have hother : (id' == id) = false := beq_eq_false_iff_ne.mpr hid
    simp [List.lookup_cons, hother, hid]

/-- Besides the change, only the last command of the undo may be unanswered. -/
structure Issued (change : UndoableChange) (s : UndoWorld) : Prop where
  resting : s.phase = .resting → s.posted = [] ∧ s.receipts = [] ∧ s.client.pending = []
  sent : s.phase ≠ .resting → change.commandId ∈ s.client.sent
  ofChange : ∀ r ∈ s.posted, r.1 = change.commandId → r.2 = change.action.command change.threadId
  ofUndo : ∀ r ∈ s.posted, r.1 ≠ change.commandId →
    s.Accepted r.1 ∨ (∃ rest, s.phase = .undoing r.1 r.2 rest) ∨ s.phase = .failed
  undoing : ∀ id command rest, s.phase = .undoing id command rest → id ≠ change.commandId

namespace Issued

private theorem sendNext {newId : String} (hsent : change.commandId ∈ s.client.sent)
    (hchange : ∀ r ∈ s.posted, r.1 = change.commandId → r.2 = change.action.command change.threadId)
    (hundo : ∀ r ∈ s.posted, r.1 ≠ change.commandId → s.Accepted r.1)
    (hstep : s.sendNext newId commands = some t) : Issued change t := by
  cases commands with
  | nil =>
    cases hstep
    exact ⟨fun h => (by cases h), fun _ => hsent, hchange, fun r hr hid => .inl (hundo r hr hid),
      fun _ _ _ h => (by cases h)⟩
  | cons command rest =>
    obtain ⟨m, hm, rfl⟩ := Option.map_eq_some_iff.mp hstep
    unfold UndoWorld.send at hm
    split_ifs at hm with hknown
    obtain ⟨client, hclient, rfl⟩ := Option.map_eq_some_iff.mp hm
    obtain ⟨hnew, hall, -⟩ := fields_of_step hclient
    have hne : newId ≠ change.commandId := fun heq => hnew (heq ▸ hsent)
    refine ⟨fun h => (by cases h), fun _ => ?_, fun r hr hid => ?_, fun r hr hid => ?_, fun id _ _ hphase => ?_⟩
    · change change.commandId ∈ client.sent
      rw [hall]
      exact List.mem_append_left _ hsent
    · rcases List.mem_append.mp hr with hr | hr
      · exact hchange r hr hid
      · rw [List.mem_singleton.mp hr] at hid
        exact absurd hid hne
    · rcases List.mem_append.mp hr with hr | hr
      · exact .inl (hundo r hr hid)
      · rw [List.mem_singleton.mp hr]
        exact .inr (.inl ⟨rest, rfl⟩)
    · obtain ⟨rfl, -, -⟩ := UndoPhase.undoing.inj hphase
      exact hne

section

variable (h : Issued change s)
include h

private theorem congr (hphase : t.phase = s.phase) (hposted : t.posted = s.posted)
    (hsent : t.client.sent = s.client.sent) (hreceipts : ∀ id, s.Accepted id → t.Accepted id)
    (hresting : s.phase = .resting → t.receipts = [] ∧ t.client.pending = []) : Issued change t where
  resting hrest := by
    rw [hphase] at hrest
    exact ⟨hposted.trans (h.resting hrest).1, hresting hrest⟩
  sent hrest := by
    rw [hsent]
    exact h.sent (hphase ▸ hrest)
  ofChange := hposted ▸ h.ofChange
  ofUndo r hr hid := by
    rw [hphase]
    exact (h.ofUndo r (hposted ▸ hr) hid).imp_left (hreceipts r.1)
  undoing := hphase ▸ h.undoing

private theorem commit {event : StoredEvent} (hcommit : s.commit event = some t) : Issued change t := by
  unfold UndoWorld.commit at hcommit
  split_ifs at hcommit
  split at hcommit
  · cases hcommit
    exact h.congr rfl rfl rfl (fun _ => id) fun hrest => (h.resting hrest).2
  · cases hcommit

theorem step {action : Action} (hstep : s.step change action = some t) : Issued change t := by
  cases action with
  | other event => exact h.commit (Option.filter_eq_some_iff.mp hstep).1
  | wake =>
    simp only [UndoWorld.step] at hstep
    split_ifs at hstep
    exact h.commit hstep
  | tick ms =>
    cases hstep
    exact h.congr rfl rfl rfl (fun _ => id) fun hrest => (h.resting hrest).2
  | command =>
    simp only [UndoWorld.step] at hstep
    split at hstep
    · next hrest _ =>
      obtain ⟨m, hm, rfl⟩ := Option.map_eq_some_iff.mp hstep
      unfold UndoWorld.send at hm
      split_ifs at hm
      obtain ⟨client, hclient, rfl⟩ := Option.map_eq_some_iff.mp hm
      obtain ⟨-, hall, -⟩ := fields_of_step hclient
      have hposted : ∀ r ∈ s.posted ++ [(change.commandId, change.action.command change.threadId)],
          r = (change.commandId, change.action.command change.threadId) := by
        rw [(h.resting hrest).1]
        exact fun r hr => List.mem_singleton.mp hr
      refine ⟨fun h => (by cases h), fun _ => ?_, fun r hr _ => ?_, fun r hr hid => ?_, fun _ _ _ h => (by cases h)⟩
      · change change.commandId ∈ client.sent
        rw [hall]
        exact List.mem_append_right _ (List.mem_singleton_self _)
      · rw [hposted r hr]
      · rw [hposted r hr] at hid
        exact absurd rfl hid
    · cases hstep
  | arrive commandId =>
    obtain ⟨command, hlookup, rfl⟩ := Option.map_eq_some_iff.mp hstep
    split_ifs
    · exact h
    · obtain hsame | ⟨bridge, -, head, commits, -, htake, -⟩ := take_cases s commandId command
      · rwa [hsame]
      · rw [htake]
        refine h.congr rfl rfl rfl (fun id hid => ?_) fun hrest => ?_
        · exact (isSome_lookup_concat ..).mpr (.inl hid)
        · rw [(h.resting hrest).1] at hlookup
          cases hlookup
  | answered commandId newId =>
    obtain ⟨sequence, hreceipt, hstep⟩ := Option.bind_eq_some_iff.mp hstep
    obtain ⟨client, hclient, hstep⟩ := Option.bind_eq_some_iff.mp hstep
    obtain ⟨hsent, -, -, -, hpending⟩ := fields_of_step hclient
    have hknown : Issued change { s with client } :=
      h.congr rfl rfl hsent (fun _ => id) fun hrest => ⟨(h.resting hrest).2.1, hpending (h.resting hrest).2.2⟩
    dsimp only at hstep
    split at hstep
    · next current command rest hphase =>
      split_ifs at hstep with hcurrent
      · refine Issued.sendNext (hknown.sent ?_) hknown.ofChange (fun r hr hid => ?_) hstep
        · exact fun hrest => absurd (hphase.symm.trans hrest) (by simp)
        · rcases hknown.ofUndo r hr hid with haccepted | ⟨rest', hundoing⟩ | hover
          · exact haccepted
          · obtain ⟨hid', -, -⟩ := UndoPhase.undoing.inj (hphase.symm.trans hundoing)
            rw [Accepted, ← hid', ← hcurrent]
            exact Option.isSome_of_eq_some hreceipt
          · exact absurd (hphase.symm.trans hover) (by simp)
      · exact Option.some.inj hstep ▸ hknown
    · exact Option.some.inj hstep ▸ hknown
  | failed commandId =>
    obtain ⟨client, hclient, rfl⟩ := Option.map_eq_some_iff.mp hstep
    obtain ⟨hsent, -, -, -, hpending⟩ := fields_of_step hclient
    have hknown : Issued change { s with client } :=
      h.congr rfl rfl hsent (fun _ => id) fun hrest => ⟨(h.resting hrest).2.1, hpending (h.resting hrest).2.2⟩
    have hfailed (hrest : s.phase ≠ .resting) : Issued change { s with client, phase := .failed } :=
      ⟨fun h => (by cases h), fun _ => hknown.sent hrest, hknown.ofChange, fun _ _ _ => .inr (.inr rfl),
        fun _ _ _ h => (by cases h)⟩
    cases hphase : s.phase with
    | offered => exact hfailed (by simp [hphase])
    | undoing current command rest =>
      dsimp only
      split_ifs
      · exact hfailed (by simp [hphase])
      · rwa [← hphase]
    | resting | undone | failed =>
      dsimp only
      rwa [← hphase]
  | undo newId =>
    simp only [UndoWorld.step] at hstep
    split at hstep
    · next hphase _ _ =>
      refine Issued.sendNext (h.sent (by simp [hphase])) h.ofChange (fun r hr hid => ?_) hstep
      rcases h.ofUndo r hr hid with haccepted | ⟨rest, hundoing⟩ | hover
      · exact haccepted
      · exact absurd (hphase.symm.trans hundoing) (by simp)
      · exact absurd (hphase.symm.trans hover) (by simp)
    · cases hstep
  | stream sequence threads =>
    simp only [UndoWorld.step] at hstep
    split_ifs at hstep
    obtain ⟨client, hclient, rfl⟩ := Option.map_eq_some_iff.mp hstep
    obtain ⟨hsent, -, -, -, hpending⟩ := fields_of_step hclient
    exact h.congr rfl rfl hsent (fun _ => id) fun hrest => ⟨(h.resting hrest).2.1, hpending (h.resting hrest).2.2⟩
  | grace commandId =>
    simp only [UndoWorld.step] at hstep
    split_ifs at hstep
    obtain ⟨client, hclient, rfl⟩ := Option.map_eq_some_iff.mp hstep
    obtain ⟨hsent, -, -, -, hpending⟩ := fields_of_step hclient
    exact h.congr rfl rfl hsent (fun _ => id) fun hrest => ⟨(h.resting hrest).2.1, hpending (h.resting hrest).2.2⟩

end

end Issued

/-! ### The thread's place -/

/-- The commands of the undo that the bridge still has to accept. -/
def remaining (s : UndoWorld) : List ShelfCommand :=
  match s.phase with
  | .undoing commandId command rest => if (s.receipts.lookup commandId).isSome then rest else command :: rest
  | _ => []

/-- From where the thread is, the commands take it to the place: whatever comes first where the change leaves it
there, else behind the change. -/
def Planned (change : UndoableChange) (s : UndoWorld) (place here : ShelfPlace) (commands : List ShelfCommand) :
    Prop :=
  (∀ command ∈ commands, command.threadId = change.threadId ∧ ∀ id, command ≠ .pin id none) ∧
    (goes place (change.action.command change.threadId) = place ∧ Woken s.now place here ∧
        (∀ command ∈ commands, Woken s.now place (goes place command)) ∨
      s.Accepted change.commandId ∧ Leads s.now place here commands ∨
      ¬s.Accepted change.commandId ∧ goes place (change.action.command change.threadId) ≠ place ∧
        Woken s.now place here ∧ Leads s.now place (goes place (change.action.command change.threadId)) commands)

/-- Where the bridge has the thread, seen from the place that Undo keeps. -/
def Tracks (change : UndoableChange) (s : UndoWorld) : Prop :=
  match s.phase with
  | .resting => ∀ c ∈ s.commits, ∀ thread, c.2.find? change.threadId = some thread →
      ∃ here, s.standing change = some here ∧ Woken s.now (shelfPlace thread).standing here
  | .offered => ∃ place here, s.place = some place ∧ place.complete = true ∧ s.standing change = some here ∧
      Woken s.now (if (s.receipts.lookup change.commandId).isSome then
        goes place.standing (change.action.command change.threadId) else place.standing) here
  | .undoing .. | .undone => ∃ place here, s.place = some place ∧ s.standing change = some here ∧
      s.Planned change place.standing here s.remaining
  | .failed => True

section

variable (h : s.Planned change place here commands)
include h

theorem Planned.mono {ms : Nat} : Planned change { s with now := s.now + ms } place here commands := by
  have hnow : s.now ≤ s.now + ms := by omega
  obtain ⟨hfit, ⟨hnoop, hwoken, hkeeps⟩ | ⟨haccepted, hleads⟩ | ⟨hopen, hmoves, hwoken, hleads⟩⟩ := h
  · exact ⟨hfit, .inl ⟨hnoop, hwoken.mono hnow, fun command hc => (hkeeps command hc).mono hnow⟩⟩
  · exact ⟨hfit, .inr (.inl ⟨haccepted, Woken.mono hleads hnow⟩)⟩
  · exact ⟨hfit, .inr (.inr ⟨hopen, hmoves, hwoken.mono hnow, Woken.mono hleads hnow⟩)⟩

theorem Planned.woken (hwoken : Woken s.now here next) : s.Planned change place next commands := by
  obtain ⟨hfit, ⟨hnoop, hhere, hkeeps⟩ | ⟨haccepted, hleads⟩ | ⟨hopen, hmoves, hhere, hleads⟩⟩ := h
  · exact ⟨hfit, .inl ⟨hnoop, hhere.trans hwoken, hkeeps⟩⟩
  · exact ⟨hfit, .inr (.inl ⟨haccepted, hleads.woken hwoken⟩)⟩
  · exact ⟨hfit, .inr (.inr ⟨hopen, hmoves, hhere.trans hwoken, hleads⟩)⟩

end

theorem command_fits (action : UndoAction) (threadId : String) :
    (action.command threadId).threadId = threadId ∧ ∀ id, action.command threadId ≠ .pin id none := by
  cases action <;> exact ⟨rfl, fun _ => by simp [UndoAction.command]⟩

theorem goes_pinned (action : UndoAction) (threadId : String) (h : place.shelf = .pinned) :
    goes place (action.command threadId) ≠ place := by
  intro hsame
  have hshelf := congrArg ShelfPlace.shelf hsame
  cases action <;> simp [goes, UndoAction.command, h] at hshelf

theorem standing_tidy (h : s.standing change = some here) : here.standing = here := by
  obtain ⟨row, -, rfl⟩ := Option.map_eq_some_iff.mp h
  exact standing_standing _

theorem planned_restore {shown : Shelf} (hcomplete : place.complete = true)
    (hstanding : s.standing change = some here)
    (hwoken : Woken s.now (if (s.receipts.lookup change.commandId).isSome then
      goes place.standing (change.action.command change.threadId) else place.standing) here)
    (hshown : s.showsChange change place shown = true) :
    s.Planned change place.standing here (restoreShelfCommands change.threadId shown place s.now) := by
  refine ⟨fits_restore _ _ _ hcomplete, ?_⟩
  have htidy := standing_goes (standing_standing place) (change.action.command change.threadId)
  have hview : shown = (goes place.standing (change.action.command change.threadId)).shelf ∨
      (s.Accepted change.commandId ∧ shown = here.shelf) ∨
      place.shelf = .pinned ∨ place.shelf = .snoozed ∧ place.snoozedUntil.any (s.now < ·) = true := by
    simpa [showsChange, hstanding, or_assoc, eq_comm (a := here.shelf)] using hshown
  by_cases hnoop : goes place.standing (change.action.command change.threadId) = place.standing
  · have hpinned : place.shelf ≠ .pinned := fun h =>
      goes_pinned change.action change.threadId (show place.standing.shelf = .pinned from h) hnoop
    rw [hnoop, ite_self] at hwoken
    refine .inl ⟨hnoop, hwoken, ?_⟩
    rcases hview with hsame | ⟨-, hsame⟩ | hpin | ⟨hsnoozed, hahead⟩
    · rw [hsame, hnoop]
      exact keeps_restore _ hcomplete hpinned (.inl rfl)
    · rw [hsame]
      exact keeps_restore _ hcomplete hpinned hwoken
    · exact absurd hpin hpinned
    · exact fun command hmem => .inl (keeps_restore_snooze _ _ hsnoozed hahead command hmem)
  · by_cases haccepted : s.Accepted change.commandId
    · rw [if_pos haccepted] at hwoken
      refine .inr (.inl ⟨haccepted, ?_⟩)
      rcases hview with hsame | ⟨-, hsame⟩ | hany
      · exact (leads_restore _ hcomplete htidy (.inl hsame)).woken hwoken
      · exact leads_restore _ hcomplete (standing_tidy hstanding) (.inl hsame)
      · exact leads_restore _ hcomplete (standing_tidy hstanding) (.inr hany)
    · rw [if_neg haccepted] at hwoken
      refine .inr (.inr ⟨haccepted, hnoop, hwoken, leads_restore _ hcomplete htidy ?_⟩)
      rcases hview with hsame | ⟨hyes, -⟩ | hany
      · exact .inl hsame
      · exact absurd hyes haccepted
      · exact .inr hany

theorem Planned.change_taken (h : s.Planned change place here commands)
    (hfirst : ¬s.Accepted change.commandId) (hnow : t.now = s.now) (haccepted : t.Accepted change.commandId) :
    t.Planned change place (goes here (change.action.command change.threadId)) commands := by
  obtain ⟨hfit, ⟨hnoop, hhere, hkeeps⟩ | ⟨hyes, -⟩ | ⟨-, -, hhere, hleads⟩⟩ := h
  · rw [← hnow] at hhere hkeeps
    refine ⟨hfit, .inl ⟨hnoop, ?_, hkeeps⟩⟩
    have hgoes := hhere.goes (change.action.command change.threadId)
    rwa [hnoop] at hgoes
  · exact absurd hyes hfirst
  · rw [← hnow] at hhere hleads
    exact ⟨hfit, .inr (.inl ⟨haccepted, hleads.woken (hhere.goes _)⟩)⟩

theorem Planned.undo_taken (h : s.Planned change place here (command :: commands))
    (hbehind : s.Accepted change.commandId ∨ goes place (change.action.command change.threadId) = place)
    (hnow : t.now = s.now) (hkept : s.Accepted change.commandId → t.Accepted change.commandId) :
    t.Planned change place (goes here command) commands := by
  obtain ⟨hfit, ⟨hnoop, hhere, hkeeps⟩ | ⟨hyes, hleads⟩ | ⟨hno, hmoves, -⟩⟩ := h
  · rw [← hnow] at hhere hkeeps
    exact ⟨fun c hc => hfit c (List.mem_cons_of_mem _ hc), .inl ⟨hnoop,
      (hkeeps command List.mem_cons_self).trans (hhere.goes command),
      fun c hc => hkeeps c (List.mem_cons_of_mem _ hc)⟩⟩
  · rw [← hnow] at hleads
    exact ⟨fun c hc => hfit c (List.mem_cons_of_mem _ hc), .inr (.inl ⟨hkept hyes, hleads⟩)⟩
  · exact (hbehind.elim hno hmoves).elim

namespace Tracks

private theorem commit (h : s.Tracks change) {event : StoredEvent} (hcommit : s.commit event = some t)
    (hmoved : ∀ here, s.standing change = some here → ∃ next, t.standing change = some next ∧ Woken s.now here next) :
    t.Tracks change := by
  unfold UndoWorld.commit at hcommit
  split_ifs at hcommit
  split at hcommit
  · next bridge _ =>
    cases hcommit
    unfold Tracks at h ⊢
    dsimp only at h ⊢
    split
    · next hphase =>
      rw [hphase] at h
      intro c hc thread hthread
      rcases List.mem_append.mp hc with hc | hc
      · obtain ⟨here, hhere, hwoken⟩ := h c hc thread hthread
        obtain ⟨next, hnext, hnextWoken⟩ := hmoved here hhere
        exact ⟨next, hnext, hwoken.trans hnextWoken⟩
      · rw [List.mem_singleton.mp hc, find?_shellThreads] at hthread
        obtain ⟨row, hrow, rfl⟩ := Option.map_eq_some_iff.mp hthread
        exact ⟨_, by rw [standing, hrow]; rfl, .inl rfl⟩
    · next hphase =>
      rw [hphase] at h
      obtain ⟨place, here, hplace, hcomplete, hhere, hwoken⟩ := h
      obtain ⟨next, hnext, hnextWoken⟩ := hmoved here hhere
      exact ⟨place, next, hplace, hcomplete, hnext, hwoken.trans hnextWoken⟩
    · next hphase =>
      rw [hphase] at h
      obtain ⟨place, here, hplace, hhere, hplanned⟩ := h
      obtain ⟨next, hnext, hnextWoken⟩ := hmoved here hhere
      exact ⟨place, next, hplace, hnext, hplanned.woken hnextWoken⟩
    · next hphase =>
      rw [hphase] at h
      obtain ⟨place, here, hplace, hhere, hplanned⟩ := h
      obtain ⟨next, hnext, hnextWoken⟩ := hmoved here hhere
      exact ⟨place, next, hplace, hnext, hplanned.woken hnextWoken⟩
    · trivial
  · cases hcommit

private theorem tick (h : s.Tracks change) (ms : Nat) : Tracks change { s with now := s.now + ms } := by
  have hnow : s.now ≤ s.now + ms := by omega
  unfold Tracks at h ⊢
  dsimp only at h ⊢
  split
  · next hphase =>
    rw [hphase] at h
    intro c hc thread hthread
    obtain ⟨here, hhere, hwoken⟩ := h c hc thread hthread
    exact ⟨here, hhere, hwoken.mono hnow⟩
  · next hphase =>
    rw [hphase] at h
    obtain ⟨place, here, hplace, hcomplete, hhere, hwoken⟩ := h
    exact ⟨place, here, hplace, hcomplete, hhere, hwoken.mono hnow⟩
  · next hphase =>
    rw [hphase] at h
    obtain ⟨place, here, hplace, hhere, hplanned⟩ := h
    exact ⟨place, here, hplace, hhere, hplanned.mono⟩
  · next hphase =>
    rw [hphase] at h
    obtain ⟨place, here, hplace, hhere, hplanned⟩ := h
    exact ⟨place, here, hplace, hhere, hplanned.mono⟩
  · trivial

theorem of_planned (hphase : (∃ commandId command rest, t.phase = .undoing commandId command rest) ∨
    t.phase = .undone) (hplace : t.place = some place) (hhere : t.standing change = some here)
    (hplanned : t.Planned change place.standing here t.remaining) : t.Tracks change := by
  unfold Tracks
  rcases hphase with ⟨commandId, command, rest, hphase⟩ | hphase
  · rw [hphase]
    exact ⟨place, here, hplace, hhere, hplanned⟩
  · rw [hphase]
    exact ⟨place, here, hplace, hhere, hplanned⟩

private theorem sendNext {newId : String} (hplace : s.place = some place) (hhere : s.standing change = some here)
    (hplanned : s.Planned change place.standing here commands) (hstep : s.sendNext newId commands = some t) :
    t.Tracks change := by
  cases commands with
  | nil =>
    cases hstep
    exact ⟨place, here, hplace, hhere, hplanned⟩
  | cons command rest =>
    obtain ⟨m, hm, rfl⟩ := Option.map_eq_some_iff.mp hstep
    unfold UndoWorld.send at hm
    split_ifs at hm with hknown
    obtain ⟨client, hclient, rfl⟩ := Option.map_eq_some_iff.mp hm
    refine ⟨place, here, hplace, hhere, ?_⟩
    have hremaining : remaining { s with
        client, posted := s.posted ++ [(newId, command)], phase := .undoing newId command rest } = command :: rest :=
      if_neg hknown
    rw [hremaining]
    exact hplanned

theorem standing_wake (hcommit : s.commit (s.wakeEvent change) = some t) :
    t.standing change = some ⟨.active, none, none⟩ := by
  unfold UndoWorld.commit at hcommit
  split_ifs at hcommit
  split at hcommit
  · next bridge happ =>
    cases hcommit
    obtain ⟨threadId, thread, next, hid, -, hfind, hnext, -, rfl⟩ := Projection.rewriteThread_eq_ok.mp happ
    cases hid
    obtain rfl := Except.ok.inj hnext
    have hthread : thread.id = change.threadId := Table.key_of_find? hfind
    have hkey : (threadParams (thread.reshelved .active none none s.now)).id = change.threadId := hthread
    unfold standing
    dsimp only
    rw [Table.find?_set, if_pos hkey]
    rfl
  · cases hcommit

section

variable (h : s.Tracks change)
include h

private theorem take (hissued : Issued change s) {commandId : String}
    (hmem : (commandId, command) ∈ s.posted) (hfirst : ¬s.Accepted commandId)
    (hsteady : s.steady change (.arrive commandId) = true) : (s.take commandId command).Tracks change := by
  obtain hsame | ⟨bridge, events, head, commits, hanswer, htake, -⟩ := take_cases s commandId command
  · rwa [hsame]
  have hcommand (hid : commandId = change.commandId) : command = change.action.command change.threadId :=
    hissued.ofChange _ hmem hid
  have hkept (id : String) (hne : id ≠ commandId) :
      ((s.receipts ++ [(commandId, head)]).lookup id).isSome = (s.receipts.lookup id).isSome := by
    rw [Bool.eq_iff_iff, isSome_lookup_concat]
    exact or_iff_left hne
  have hadded : ((s.receipts ++ [(commandId, head)]).lookup commandId).isSome = true :=
    (isSome_lookup_concat ..).mpr (.inr rfl)
  -- The change arrives while the undo is under way or done.
  have hchange {place here : ShelfPlace} {commands : List ShelfCommand} (hid : commandId = change.commandId)
      (hhere : s.standing change = some here) (hplanned : s.Planned change place here commands) :
      (s.take commandId command).standing change = some (goes here command) ∧
        (s.take commandId command).Planned change place (goes here command) commands := by
    obtain rfl := hcommand hid
    obtain ⟨hthread, hpin⟩ := command_fits change.action change.threadId
    rw [htake]
    exact ⟨standing_of_answer hanswer hthread hpin hhere, hplanned.change_taken (hid ▸ hfirst) rfl (hid ▸ hadded)⟩
  unfold Tracks at h
  split at h
  · next hphase =>
    rw [(hissued.resting hphase).1] at hmem
    cases hmem
  · next hphase =>
    obtain ⟨place, here, hplace, hcomplete, hhere, hwoken⟩ := h
    have hid : commandId = change.commandId := by
      by_contra hne
      rcases hissued.ofUndo _ hmem hne with haccepted | ⟨rest, hundoing⟩ | hover
      · exact hfirst haccepted
      · cases hphase.symm.trans hundoing
      · cases hphase.symm.trans hover
    obtain rfl := hcommand hid
    obtain ⟨hthread, hpin⟩ := command_fits change.action change.threadId
    subst hid
    rw [if_neg hfirst] at hwoken
    rw [htake]
    unfold Tracks
    dsimp only
    rw [hphase, hadded]
    exact ⟨place, _, hplace, hcomplete, standing_of_answer hanswer hthread hpin hhere, hwoken.goes _⟩
  · next current currentCommand rest hphase =>
    obtain ⟨place, here, hplace, hhere, hplanned⟩ := h
    by_cases hid : commandId = change.commandId
    · obtain ⟨hnext, hplan⟩ := hchange hid hhere hplanned
      have hremaining : (s.take commandId command).remaining = s.remaining := by
        rw [htake]
        simp only [remaining, hphase]
        rw [hkept current (hid ▸ hissued.undoing _ _ _ hphase)]
      rw [← hremaining] at hplan
      exact of_planned (.inl ⟨current, currentCommand, rest, by rw [htake]; exact hphase⟩)
        (by rw [htake]; exact hplace) hnext hplan
    · rcases hissued.ofUndo _ hmem hid with haccepted | ⟨rest', hundoing⟩ | hover
      · exact absurd haccepted hfirst
      · obtain ⟨rfl, rfl, rfl⟩ := UndoPhase.undoing.inj (hphase.symm.trans hundoing)
        have hbefore : s.remaining = currentCommand :: rest := by
          simp only [remaining, hphase]
          exact if_neg hfirst
        have hafter : (s.take current currentCommand).remaining = rest := by
          rw [htake]
          simp only [remaining, hphase]
          exact if_pos hadded
        rw [hbefore] at hplanned
        obtain ⟨hthread, hpin⟩ := hplanned.1 currentCommand List.mem_cons_self
        have hbehind : s.Accepted change.commandId ∨
            goes place.standing (change.action.command change.threadId) = place.standing := by
          simpa [steady, hid, hplace] using hsteady
        have hplan : (s.take current currentCommand).Planned change place.standing (goes here currentCommand)
            (s.take current currentCommand).remaining := by
          rw [hafter]
          refine hplanned.undo_taken hbehind (by rw [htake]) fun hyes => ?_
          rw [htake]
          exact (isSome_lookup_concat ..).mpr (.inl hyes)
        exact of_planned (.inl ⟨current, currentCommand, rest, by rw [htake]; exact hphase⟩)
          (by rw [htake]; exact hplace) (by rw [htake]; exact standing_of_answer hanswer hthread hpin hhere) hplan
      · cases hphase.symm.trans hover
  · next hphase =>
    obtain ⟨place, here, hplace, hhere, hplanned⟩ := h
    have hid : commandId = change.commandId := by
      by_contra hne
      rcases hissued.ofUndo _ hmem hne with haccepted | ⟨rest, hundoing⟩ | hover
      · exact hfirst haccepted
      · cases hphase.symm.trans hundoing
      · cases hphase.symm.trans hover
    obtain ⟨hnext, hplan⟩ := hchange hid hhere hplanned
    have hremaining : (s.take commandId command).remaining = s.remaining := by
      rw [htake]
      simp only [remaining, hphase]
    rw [← hremaining] at hplan
    exact of_planned (.inr (by rw [htake]; exact hphase)) (by rw [htake]; exact hplace) hnext hplan
  · next hphase =>
    rw [htake]
    unfold Tracks
    dsimp only
    rw [hphase]
    trivial

private theorem offer (hsynced : s.Synced) (hissued : Issued change s) {before : Thread}
    (hrest : s.phase = .resting) (hbefore : s.currentThread change = some before)
    (hcomplete : (shelfPlace before).complete = true) (client : PendingShelf)
    (posted : List (String × ShelfCommand)) :
    Tracks change { s with client, posted, place := some (shelfPlace before), phase := .offered } := by
  obtain ⟨-, hreceipts, hpending⟩ := hissued.resting hrest
  unfold Tracks at h
  rw [hrest] at h
  have hfound : s.client.threads.find? change.threadId = some before := by
    rw [← hbefore, currentThread, hpending]
    rfl
  obtain ⟨here, hhere, hwoken⟩ := h _ hsynced.shown before hfound
  refine ⟨shelfPlace before, here, rfl, hcomplete, hhere, ?_⟩
  rw [show ({ s with client, posted, place := some (shelfPlace before), phase := .offered } :
    UndoWorld).receipts = [] from hreceipts]
  exact hwoken

theorem step (hsynced : s.Synced) (hissued : Issued change s) {action : Action}
    (hsteady : s.steady change action = true) (hstep : s.step change action = some t) : t.Tracks change := by
  cases action with
  | other event =>
    obtain ⟨hcommit, hsame⟩ := Option.filter_eq_some_iff.mp hstep
    refine h.commit hcommit fun here hhere => ⟨here, ?_, .inl rfl⟩
    rw [← hhere]
    simpa using hsame
  | wake =>
    simp only [UndoWorld.step] at hstep
    split_ifs at hstep with hdue
    refine h.commit hstep fun here hhere => ⟨_, standing_wake hstep, ?_⟩
    obtain ⟨hsnoozed, until_, huntil, hpast⟩ : here.shelf = .snoozed ∧
        ∃ until_, here.snoozedUntil = some until_ ∧ until_ ≤ s.now := by
      simpa [hhere, Option.any_eq_true] using hdue
    exact .inr ⟨hsnoozed, ⟨until_, huntil, hpast⟩, rfl⟩
  | tick ms =>
    cases hstep
    exact h.tick ms
  | command =>
    simp only [UndoWorld.step] at hstep
    split at hstep
    · next before hrest hbefore =>
      obtain ⟨m, hm, rfl⟩ := Option.map_eq_some_iff.mp hstep
      unfold UndoWorld.send at hm
      split_ifs at hm
      obtain ⟨client, hclient, rfl⟩ := Option.map_eq_some_iff.mp hm
      refine h.offer hsynced hissued hrest hbefore ?_ client _
      simpa [steady, hbefore] using hsteady
    · cases hstep
  | arrive commandId =>
    obtain ⟨command, hlookup, rfl⟩ := Option.map_eq_some_iff.mp hstep
    obtain ⟨l, l', hlist, -⟩ := List.lookup_eq_some_iff.mp hlookup
    split_ifs with hfirst
    · exact h
    · exact h.take hissued (by simp [hlist]) hfirst hsteady
  | answered commandId newId =>
    obtain ⟨sequence, hreceipt, hstep⟩ := Option.bind_eq_some_iff.mp hstep
    obtain ⟨client, hclient, hstep⟩ := Option.bind_eq_some_iff.mp hstep
    dsimp only at hstep
    split at hstep
    · next current command rest hphase =>
      split_ifs at hstep with hcurrent
      · unfold Tracks at h
        rw [hphase] at h
        obtain ⟨place, here, hplace, hhere, hplanned⟩ := h
        have hremaining : s.remaining = rest := by
          simp only [remaining, hphase]
          rw [← hcurrent, hreceipt]
          rfl
        rw [hremaining] at hplanned
        exact Tracks.sendNext (s := { s with client }) hplace hhere hplanned hstep
      · exact Option.some.inj hstep ▸ h
    · exact Option.some.inj hstep ▸ h
  | failed commandId =>
    obtain ⟨client, -, rfl⟩ := Option.map_eq_some_iff.mp hstep
    cases hphase : s.phase with
    | offered => trivial
    | undoing current command rest =>
      dsimp only
      split_ifs
      · trivial
      · rw [← hphase]
        exact h
    | resting | undone | failed =>
      dsimp only
      rw [← hphase]
      exact h
  | undo newId =>
    simp only [UndoWorld.step] at hstep
    split at hstep
    · next place shown hphase hplace hshown =>
      unfold Tracks at h
      rw [hphase] at h
      obtain ⟨_, here, hkept, hcomplete, hhere, hwoken⟩ := h
      obtain rfl := Option.some.inj (hplace.symm.trans hkept)
      refine Tracks.sendNext hplace hhere (planned_restore hcomplete hhere hwoken ?_) hstep
      simpa [steady, hplace, hshown] using hsteady
    · cases hstep
  | stream sequence threads =>
    simp only [UndoWorld.step] at hstep
    split_ifs at hstep
    obtain ⟨client, -, rfl⟩ := Option.map_eq_some_iff.mp hstep
    exact h
  | grace commandId =>
    simp only [UndoWorld.step] at hstep
    split_ifs at hstep
    obtain ⟨client, -, rfl⟩ := Option.map_eq_some_iff.mp hstep
    exact h

end

end Tracks

/-! ### Whole runs -/

theorem tracks_start (change : UndoableChange) (bridge : Projection) (head : Nat) (now : Int) :
    (start bridge head now).Tracks change := by
  intro c hc thread hthread
  rw [List.mem_singleton.mp hc, find?_shellThreads] at hthread
  obtain ⟨row, hrow, rfl⟩ := Option.map_eq_some_iff.mp hthread
  refine ⟨(shelfPlace row).standing, ?_, .inl rfl⟩
  change (bridge.threads.find? change.threadId).map _ = _
  rw [hrow]
  rfl

theorem synced_start (bridge : Projection) (head : Nat) (now : Int) : (start bridge head now).Synced where
  sound p hp := by cases hp
  replies q hq := by cases hq
  receipts r hr := by cases hr
  commits c hc := by
    obtain rfl := List.mem_singleton.mp hc
    exact ⟨le_rfl, fun _ => rfl⟩
  shown := List.mem_singleton_self _

theorem issued_start (change : UndoableChange) (bridge : Projection) (head : Nat) (now : Int) :
    Issued change (start bridge head now) where
  resting _ := ⟨rfl, rfl, rfl⟩
  sent h := absurd rfl h
  ofChange r hr := by cases hr
  ofUndo r hr := by cases hr
  undoing _ _ _ h := by cases h

/-- Undo puts a thread back in every run in which the kept place is complete, Undo is tapped where the sidebar shows
the change, and the bridge takes the change before the undo's commands, unless the change leaves the thread where it
was. -/
theorem restored_of_steady {change : UndoableChange} {bridge : Projection} {head : Nat} {now : Int} {s : UndoWorld}
    (hrun : Runs.Run (step change) (fun s action => steady change s action = true) (start bridge head now) s) :
    s.Restored change := by
  obtain ⟨hsynced, -, htracks⟩ : s.Synced ∧ Issued change s ∧ s.Tracks change :=
    hrun.invariant (P := fun s => s.Synced ∧ Issued change s ∧ s.Tracks change)
      (fun _ _ _ ⟨hsynced, hissued, htracks⟩ hsteady hstep =>
        ⟨hsynced.step hstep, hissued.step hstep, htracks.step hsynced hissued hsteady hstep⟩)
      ⟨synced_start bridge head now, issued_start change bridge head now, tracks_start change bridge head now⟩
  intro hundone haccepted
  unfold Tracks at htracks
  rw [hundone] at htracks
  obtain ⟨place, here, hplace, hhere, -, hplan⟩ := htracks
  have hremaining : s.remaining = [] := by
    unfold remaining
    rw [hundone]
  rw [hremaining] at hplan
  refine ⟨place, here, hplace, hhere, ?_, fun hanswered hreached => ?_⟩
  · rcases hplan with ⟨-, hwoken, -⟩ | ⟨-, hwoken⟩ | ⟨hopen, -⟩
    · exact hwoken
    · exact hwoken
    · exact absurd haccepted hopen
  · have hpending := hsynced.sound.settled hanswered fun q hq => (hsynced.replies q hq).trans_eq hreached.symm
    have hthreads : s.client.threads = shellThreads s.bridge := (hsynced.commits _ hsynced.shown).2 hreached
    unfold currentThread
    rw [hpending]
    change (s.client.threads.find? change.threadId).map _ = _
    rw [hthreads, find?_shellThreads, Option.map_map]
    exact hhere

private def settleFirst : UndoableChange := ⟨"t1", "c1", .settle⟩

private def settledAndBack : Projection :=
  [{ commandId := "c1", command := .settle "t1", paneAlive := true, sequence := 4 },
    { commandId := "u1", command := .unsettle "t1", paneAlive := true, sequence := 5 : ShelfCall }].foldl
    (fun p call => ((bridgeAnswer 2000 p call).map Prod.fst).getD p) twoThreads

/-- The settle is accepted, its Undo tapped before the answer comes; the sidebar ends on the active shelf. -/
theorem restored_of_steady_settle : ∃ s : UndoWorld, s.phase = .undone ∧ s.Accepted settleFirst.commandId ∧
    s.client.inFlight = [] ∧ s.client.sequence = s.head ∧ s.place = some ⟨.active, none, none⟩ ∧
    s.Restored settleFirst := by
  obtain ⟨s, hrun, hp⟩ := Runs.exists_run_of_exec
    (show (Runs.exec (step settleFirst) (fun s action => steady settleFirst s action = true) (start twoThreads 3 2000)
      [.command, .arrive "c1", .undo "u1", .arrive "u1", .answered "c1" "", .answered "u1" "",
        .stream 5 (shellThreads settledAndBack)]).any
      (fun s => s.phase = .undone && (s.receipts.lookup "c1").isSome && s.client.inFlight = [] &&
        s.client.sequence = s.head && s.place = some ⟨.active, none, none⟩) = true by decide +kernel)
  simp only [Bool.and_eq_true, decide_eq_true_eq] at hp
  obtain ⟨⟨⟨⟨hundone, haccepted⟩, hanswered⟩, hreached⟩, hplace⟩ := hp
  exact ⟨s, hundone, haccepted, hanswered, hreached, hplace, restored_of_steady hrun⟩

/-- The settle is late, and the unsettle of its Undo finds nothing to do: all are accepted, and the thread stays
settled. -/
theorem settled_by_late_settle :
    ∃ s, Runs.Run (step settleFirst) (fun _ _ => True) (start twoThreads 3 2000) s ∧ s.phase = .undone ∧
      s.Accepted settleFirst.commandId ∧ s.place = some ⟨.active, none, none⟩ ∧
      s.standing settleFirst = some ⟨.settled, none, none⟩ ∧ ¬s.Restored settleFirst := by
  obtain ⟨s, hrun, hp⟩ := Runs.exists_run_of_exec
    (show (Runs.exec (step settleFirst) (fun _ _ => True) (start twoThreads 3 2000)
      [.command, .undo "u1", .arrive "u1", .arrive "c1", .answered "c1" "", .answered "u1" ""]).any
      (fun s => s.phase = .undone && (s.receipts.lookup "c1").isSome && s.place = some ⟨.active, none, none⟩ &&
        s.standing settleFirst = some ⟨.settled, none, none⟩) = true by decide +kernel)
  simp only [Bool.and_eq_true, decide_eq_true_eq] at hp
  obtain ⟨⟨⟨hundone, haccepted⟩, hplace⟩, hsettled⟩ := hp
  refine ⟨s, hrun, hundone, haccepted, hplace, hsettled, fun hrestored => ?_⟩
  obtain ⟨place, here, hkept, hhere, hwoken, -⟩ := hrestored hundone haccepted
  obtain rfl := Option.some.inj (hplace.symm.trans hkept)
  obtain rfl := Option.some.inj (hsettled.symm.trans hhere)
  rcases hwoken with hsame | ⟨hsnoozed, -⟩
  · cases hsame
  · cases hsnoozed

end UndoWorld

end Client

end Sightr
