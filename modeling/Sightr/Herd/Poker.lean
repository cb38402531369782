import Mathlib.Data.Finset.Card
import Sightr.Lib.JsText
import Sightr.Lib.Runs

/-!
# The keeper of the event stream

`EventPoker` of `bridge/event-poker.ts` holds one stream of herdr's events open, whose only use is to trigger
a poll. A stream that goes down is opened again after a delay that grows; a server that rejects one
subscription is asked again at once without it; a changed set of agent panes opens a new stream in place of
the old one. The delay starts over when a stability timer fires, which an acknowledgement arms and a stream's
end clears. What replaces a stream for a changed set does not clear it.

A timer is the time it is due at, a stream is its handle. The client calls back between the steps.
-/

namespace Sightr

/-! ### Subscriptions -/

structure Subscription where
  type : String
  paneId : Option String := none
  deriving DecidableEq

def GLOBAL_SUBSCRIPTIONS : List String :=
  ["workspace.created", "workspace.updated", "workspace.renamed", "workspace.closed", "workspace.focused",
    "tab.created", "tab.closed", "tab.focused", "tab.renamed", "pane.created", "pane.closed", "pane.focused",
    "pane.moved", "pane.exited", "pane.agent_detected"]

def AGENT_STATUS_CHANGED : String := "pane.agent_status_changed"

/-- Every global type, and the status of every agent pane. -/
def buildSubscriptions (agentPaneIds : List String) : List Subscription :=
  (GLOBAL_SUBSCRIPTIONS.map fun type => ({ type } : Subscription)) ++
    agentPaneIds.map fun id => { type := AGENT_STATUS_CHANGED, paneId := some id }

def sameIdSet (a b : List String) : Bool := a.toFinset.card == b.toFinset.card && a.all (· ∈ b)

def hasPart (text part : String) : Bool := (JsText.cut part.toList text.toList).isSome

/-- The server's answer names an unknown subscription, in any case. -/
def rejects (reason : String) : Bool :=
  ["invalid_request", "unknown variant", "unknown invalid subscription", "unknown or invalid subscription"].any
    (hasPart (reason.map Char.toLower))

/-- The longest subscribed type that the reason names; of equals the first. -/
def rejectedOf (reason : String) (subs : List Subscription) : Option Subscription :=
  subs.foldl (fun found s =>
    if hasPart reason s.type && found.all (·.type.length < s.type.length) then some s else found) none

/-! ### The keeper -/

/-- Healthy stream duration required before the reconnect backoff resets. -/
def STABLE_MS : Int := 30000

structure PokerConfig where
  debounceMs : Nat := 200
  backoffMs : List Nat := [1000, 2000, 5000, 15000]

structure EventPoker where
  agentPanes : List String := []
  droppedTypes : Finset String := ∅
  droppedPanes : Finset String := ∅
  started : Bool := false
  healthy : Bool := false
  backoffIdx : Nat := 0
  stream : Option Nat := none
  debounceTimer : Option Int := none
  reconnectTimer : Option Int := none
  stableTimer : Option Int := none
  deriving DecidableEq

inductive ConnectCause
  | start
  | panes
  /-- The server rejected a subscription, which is left out now. -/
  | rejected
  | backoff
  deriving DecidableEq

inductive PokerOutput
  | subscribe (handle : Nat) (subs : List Subscription) (cause : ConnectCause)
  | close (handle : Nat)
  | health (healthy : Bool)
  | poke
  deriving DecidableEq

structure PokerWorld where
  poker : EventPoker := {}
  now : Int := 0
  handles : Nat := 0
  outputs : List PokerOutput := []
  acks : List (Nat × Int) := []
  deriving DecidableEq

inductive PokerEvent
  | start
  | stop
  | setAgentPanes (ids : List String)
  | up (handle : Nat)
  | event (handle : Nat)
  | down (handle : Nat) (reason : String)
  | debounceFired
  | reconnectFired
  | stableFired
  | tick (ms : Nat)
  deriving DecidableEq

namespace EventPoker

def asks (p : EventPoker) (s : Subscription) : Bool :=
  if s.type = AGENT_STATUS_CHANGED then s.paneId.any (· ∉ p.droppedPanes) else s.type ∉ p.droppedTypes

def subscriptions (p : EventPoker) : List Subscription := (buildSubscriptions p.agentPanes).filter p.asks

/-- Remember what the server rejects; none when the reason rejects nothing new. -/
def dropRejectedSubscription (p : EventPoker) (reason : String) : Option EventPoker :=
  if !rejects reason then none
  else
    let subs := buildSubscriptions p.agentPanes
    match rejectedOf reason subs with
    | none => none
    | some found =>
      if found.type = AGENT_STATUS_CHANGED then
        let droppedPanes :=
          match found.paneId.filter (hasPart reason ·) with
          | some named => insert named p.droppedPanes
          | none => p.droppedPanes ∪ ((subs.filter (·.type = AGENT_STATUS_CHANGED)).filterMap
              (·.paneId.filter (· ≠ ""))).toFinset
        if droppedPanes.card = p.droppedPanes.card then none else some { p with droppedPanes }
      else if found.type ∈ p.droppedTypes then none
      else some { p with droppedTypes := insert found.type p.droppedTypes }

end EventPoker

namespace PokerWorld

variable (w : PokerWorld)

def setHealthy (healthy : Bool) : PokerWorld :=
  if w.poker.healthy = healthy then w
  else { w with poker.healthy := healthy, outputs := w.outputs ++ [.health healthy] }

def connect (cause : ConnectCause) : PokerWorld :=
  { w with
    poker.stream := some w.handles
    handles := w.handles + 1
    outputs := w.outputs ++ [.subscribe w.handles w.poker.subscriptions cause] }

def closeStream : PokerWorld :=
  { w with poker.stream := none, outputs := w.outputs ++ (w.poker.stream.map .close).toList }

variable (c : PokerConfig)

def scheduleReconnect (w : PokerWorld) : PokerWorld :=
  if w.poker.reconnectTimer.isSome then w
  else
    let delay := (c.backoffMs[min w.poker.backoffIdx (c.backoffMs.length - 1)]?).getD 1000
    { w with poker.backoffIdx := w.poker.backoffIdx + 1, poker.reconnectTimer := some (w.now + delay) }

def start (w : PokerWorld) : PokerWorld :=
  if w.poker.started then w else ({ w with poker.started := true } : PokerWorld).connect .start

def stop : PokerWorld :=
  ({ w with
    poker.started := false, poker.debounceTimer := none, poker.reconnectTimer := none
    poker.stableTimer := none } : PokerWorld).closeStream

/-- A changed set opens a new stream in place of the old one. -/
def setAgentPanes (ids : List String) : PokerWorld :=
  if sameIdSet ids w.poker.agentPanes then w
  else if !w.poker.started then { w with poker.agentPanes := ids }
  else ({ w with poker.agentPanes := ids, poker.reconnectTimer := none } : PokerWorld).closeStream.connect .panes

def onUp (handle : Nat) : PokerWorld :=
  if w.poker.stream ≠ some handle then w
  else
    let w := { w with acks := w.acks ++ [(handle, w.now)] }
    let w :=
      if 0 < w.poker.backoffIdx ∧ w.poker.stableTimer = none then
        { w with poker.stableTimer := some (w.now + STABLE_MS) }
      else w
    w.setHealthy true

def onEvent (w : PokerWorld) (handle : Nat) : PokerWorld :=
  if w.poker.stream ≠ some handle then w else { w with poker.debounceTimer := some (w.now + c.debounceMs) }

def onDown (w : PokerWorld) (handle : Nat) (reason : String) : PokerWorld :=
  if w.poker.stream ≠ some handle then w
  else
    let w := ({ w with poker.stream := none, poker.stableTimer := none } : PokerWorld).setHealthy false
    if !w.poker.started then w
    else
      match w.poker.dropRejectedSubscription reason with
      | some poker => ({ w with poker } : PokerWorld).connect .rejected
      | none => w.scheduleReconnect c

def due (timer : Option Int) : Bool := timer.any (· ≤ w.now)

def step (w : PokerWorld) : PokerEvent → Option PokerWorld
  | .start => some w.start
  | .stop => some w.stop
  | .setAgentPanes ids => some (w.setAgentPanes ids)
  | .up handle => if handle < w.handles then some (w.onUp handle) else none
  | .event handle => if handle < w.handles then some (w.onEvent c handle) else none
  | .down handle reason => if handle < w.handles then some (w.onDown c handle reason) else none
  | .debounceFired =>
    if w.due w.poker.debounceTimer then
      some { w with poker.debounceTimer := none, outputs := w.outputs ++ [.poke] }
    else none
  | .reconnectFired =>
    if w.due w.poker.reconnectTimer then
      let w := { w with poker.reconnectTimer := none }
      some (if w.poker.started then w.connect .backoff else w)
    else none
  | .stableFired =>
    if w.due w.poker.stableTimer then some { w with poker.stableTimer := none, poker.backoffIdx := 0 } else none
  | .tick ms => some { w with now := w.now + ms }

/-! ### What the keeper promises -/

/-- How many streams were opened because of a rejected subscription, without a delay. -/
def instantReconnects : Nat :=
  (w.outputs.filter fun o => match o with
    | .subscribe _ _ .rejected => true
    | _ => false).length

/-- The event leaves the set of agent panes as it is. -/
def SamePanes : PokerEvent → Prop
  | .setAgentPanes ids => sameIdSet ids w.poker.agentPanes = true
  | _ => True

instance (w : PokerWorld) (e : PokerEvent) : Decidable (w.SamePanes e) := by
  cases e <;> unfold SamePanes <;> infer_instance


def callbackOf : PokerEvent → Option Nat
  | .up handle | .event handle | .down handle _ => some handle
  | _ => none

structure Unwedged (c : PokerConfig) (w : PokerWorld) : Prop where
  /-- While started there is a stream or a reconnect timer, and not both. -/
  one : w.poker.started = true → w.poker.stream.isSome = w.poker.reconnectTimer.isNone
  /-- A callback of a stream that is not the active one changes nothing. -/
  stale : ∀ e handle w', callbackOf e = some handle → w.poker.stream ≠ some handle → step c w e = some w' → w' = w
  /-- A stream that was replaced or went down is never the active one again. -/
  retired : ∀ handle < w.handles, w.poker.stream ≠ some handle →
    ∀ w', Runs.Run (step c) (fun _ _ => True) w w' → w'.poker.stream ≠ some handle
  /-- After a stop nothing is left that could call back. -/
  stopped : w.poker.started = false → w.poker.stream = none ∧ w.poker.debounceTimer = none ∧
    w.poker.reconnectTimer = none ∧ w.poker.stableTimer = none
  /-- The delays start over when the active stream acknowledged `STABLE_MS` ago. -/
  stable : ∀ e w', step c w e = some w' → w.poker.backoffIdx ≠ 0 → w'.poker.backoffIdx = 0 →
    ∃ handle at_, w.poker.stream = some handle ∧ (handle, at_) ∈ w.acks ∧ at_ + STABLE_MS ≤ w.now
  /-- While the set of panes stays, a reconnect without a delay drops a subscription. -/
  instant : ∀ w', Runs.Run (step c) SamePanes w w' →
    w'.instantReconnects ≤ w.instantReconnects + w.poker.subscriptions.length

/-- No stream is replaced while the stability timer is armed. -/
def Unarmed : PokerEvent → Prop
  | .setAgentPanes ids =>
    sameIdSet ids w.poker.agentPanes = true ∨ w.poker.started = false ∨ w.poker.stableTimer = none
  | _ => True

instance (w : PokerWorld) (e : PokerEvent) : Decidable (w.Unarmed e) := by
  cases e <;> unfold Unarmed <;> infer_instance

/-! ### The streams and the timers -/

variable {c : PokerConfig} {w w' : PokerWorld}

/-- One of a stream and a reconnect timer while started, nothing otherwise; the active stream was opened. -/
private structure Sound (w : PokerWorld) : Prop where
  one : w.poker.started = true → w.poker.stream.isSome = w.poker.reconnectTimer.isNone
  stopped : w.poker.started = false → w.poker.stream = none ∧ w.poker.debounceTimer = none ∧
    w.poker.reconnectTimer = none ∧ w.poker.stableTimer = none
  opened : ∀ handle, w.poker.stream = some handle → handle < w.handles
  calm : w.poker.stream = none → w.poker.stableTimer = none

/-- What an event can do to the stream and the timers. -/
private inductive Change (w w' : PokerWorld) (e : PokerEvent) : Prop
  /-- The stream and its timers stay; the stability timer may be armed by an acknowledgement of the stream, or fire. -/
  | kept (started : w'.poker.started = w.poker.started) (stream : w'.poker.stream = w.poker.stream)
      (handles : w'.handles = w.handles) (reconnect : w'.poker.reconnectTimer = w.poker.reconnectTimer)
      (debounce : w'.poker.debounceTimer = w.poker.debounceTimer ∨ w'.poker.debounceTimer = none ∨
        w.poker.stream.isSome = true)
      (stable : w'.poker.stableTimer = w.poker.stableTimer ∨ w'.poker.stableTimer = none ∨
        ∃ handle, w.poker.stream = some handle ∧ (handle, w.now) ∈ w'.acks ∧
          w'.poker.stableTimer = some (w.now + STABLE_MS))
      (acks : w.acks ⊆ w'.acks)
  /-- A stream is opened: by a start, for another set of panes, or after the active one went down or its delay. -/
  | connected (started : w'.poker.started = true) (stream : w'.poker.stream = some w.handles)
      (handles : w'.handles = w.handles + 1) (reconnect : w'.poker.reconnectTimer = none)
      (stable : w'.poker.stableTimer = none ∨ w'.poker.stableTimer = w.poker.stableTimer ∧
        ∃ ids, e = .setAgentPanes ids ∧ sameIdSet ids w.poker.agentPanes = false ∧ w.poker.started = true)
      (acks : w'.acks = w.acks)
  /-- The stream went down, and the reconnect timer is armed. -/
  | delayed (started : w'.poker.started = true) (stream : w'.poker.stream = none) (handles : w'.handles = w.handles)
      (reconnect : w'.poker.reconnectTimer.isSome = true) (stable : w'.poker.stableTimer = none)
      (acks : w'.acks = w.acks)
  | stopped (started : w'.poker.started = false) (stream : w'.poker.stream = none) (handles : w'.handles = w.handles)
      (reconnect : w'.poker.reconnectTimer = none) (debounce : w'.poker.debounceTimer = none)
      (stable : w'.poker.stableTimer = none) (acks : w'.acks = w.acks)

private theorem Change.refl (w : PokerWorld) (e : PokerEvent) : Change w w e :=
  .kept rfl rfl rfl rfl (.inl rfl) (.inl rfl) (List.Subset.refl _)

variable {e : PokerEvent}

private theorem Change.setHealthy (h : Change w w' e) (healthy : Bool) : Change w (w'.setHealthy healthy) e := by
  unfold PokerWorld.setHealthy
  split_ifs
  · exact h
  · cases h with
    | kept hstarted hstream hhandles hreconnect hdebounce hstable hacks =>
      exact .kept hstarted hstream hhandles hreconnect hdebounce hstable hacks
    | connected hstarted hstream hhandles hreconnect hstable hacks =>
      exact .connected hstarted hstream hhandles hreconnect hstable hacks
    | delayed hstarted hstream hhandles hreconnect hstable hacks =>
      exact .delayed hstarted hstream hhandles hreconnect hstable hacks
    | stopped hstarted hstream hhandles hreconnect hdebounce hstable hacks =>
      exact .stopped hstarted hstream hhandles hreconnect hdebounce hstable hacks

theorem change_onUp (w : PokerWorld) (handle : Nat) (e : PokerEvent) : Change w (w.onUp handle) e := by
  unfold onUp
  split_ifs with hstale
  · exact .refl w e
  · have hcurrent : w.poker.stream = some handle := not_not.mp hstale
    refine Change.setHealthy ?_ true
    dsimp only
    split_ifs
    · exact .kept rfl rfl rfl rfl (.inl rfl) (.inr (.inr ⟨handle, hcurrent, by simp, rfl⟩)) (by simp)
    · exact .kept rfl rfl rfl rfl (.inl rfl) (.inl rfl) (by simp)

variable {p p' : EventPoker} {reason : String}

theorem dropRejectedSubscription_kept (h : p.dropRejectedSubscription reason = some p') :
    ∃ droppedTypes droppedPanes, p' = { p with droppedTypes, droppedPanes } := by
  unfold EventPoker.dropRejectedSubscription at h
  dsimp only at h
  split_ifs at h
  split at h
  · cases h
  · split_ifs at h <;> exact ⟨_, _, (Option.some.inj h).symm⟩

theorem setHealthy_started (w : PokerWorld) (healthy : Bool) :
    (w.setHealthy healthy).poker = { w.poker with healthy } ∧ (w.setHealthy healthy).handles = w.handles ∧
      (w.setHealthy healthy).acks = w.acks := by
  unfold setHealthy
  split_ifs with hsame
  · subst hsame
    exact ⟨rfl, rfl, rfl⟩
  · exact ⟨rfl, rfl, rfl⟩

theorem change_onDown (c : PokerConfig) (h : w.Sound) (handle : Nat) (reason : String) (e : PokerEvent) :
    Change w (w.onDown c handle reason) e := by
  unfold onDown
  split_ifs with hstale
  · exact .refl w e
  · have hcurrent : w.poker.stream = some handle := not_not.mp hstale
    have hon : w.poker.started = true := by
      by_contra hoff
      rw [(h.stopped (by simpa using hoff)).1] at hcurrent
      cases hcurrent
    have hidle : w.poker.reconnectTimer = none := by
      have hone := h.one hon
      rw [hcurrent] at hone
      exact Option.isNone_iff_eq_none.mp hone.symm
    obtain ⟨hpoker, hhandles, hacks⟩ := setHealthy_started
      ({ w with poker.stream := none, poker.stableTimer := none } : PokerWorld) false
    generalize ({ w with poker.stream := none, poker.stableTimer := none } : PokerWorld).setHealthy false = m at *
    dsimp only
    have hstarted : m.poker.started = true := by rw [hpoker]; exact hon
    rw [hstarted, Bool.not_true, if_neg Bool.false_ne_true]
    split
    · rename_i poker hdrop
      obtain ⟨types, panes, rfl⟩ := dropRejectedSubscription_kept hdrop
      refine .connected hstarted (congrArg some hhandles) (congrArg (· + 1) hhandles) ?_ (.inl ?_) hacks
      · exact (congrArg EventPoker.reconnectTimer hpoker).trans hidle
      · exact congrArg EventPoker.stableTimer hpoker
    · have htimer : m.poker.reconnectTimer = none := (congrArg EventPoker.reconnectTimer hpoker).trans hidle
      rw [scheduleReconnect, htimer, Option.isSome_none, if_neg Bool.false_ne_true]
      exact .delayed hstarted (congrArg EventPoker.stream hpoker) hhandles rfl
        (congrArg EventPoker.stableTimer hpoker) hacks

theorem change_of_step (h : w.Sound) (hstep : step c w e = some w') : Change w w' e := by
  cases e with
  | start =>
    cases hstep
    unfold start
    split_ifs with hstarted
    · exact .refl w _
    · have hoff := h.stopped (by simpa using hstarted)
      exact .connected rfl rfl rfl hoff.2.2.1 (.inl hoff.2.2.2) rfl
  | stop =>
    cases hstep
    exact .stopped rfl rfl rfl rfl rfl rfl rfl
  | setAgentPanes ids =>
    cases hstep
    unfold setAgentPanes
    split_ifs with hsame hstarted
    · exact .refl w _
    · exact .kept rfl rfl rfl rfl (.inl rfl) (.inl rfl) (List.Subset.refl _)
    · have hon : w.poker.started = true := by simpa using hstarted
      exact .connected hon rfl rfl rfl (.inr ⟨rfl, ids, rfl, by simpa using hsame, hon⟩) rfl
  | up handle =>
    simp only [step] at hstep
    split_ifs at hstep
    cases hstep
    exact change_onUp w handle _
  | event handle =>
    simp only [step] at hstep
    split_ifs at hstep
    cases hstep
    unfold onEvent
    split_ifs with hstale
    · exact .refl w _
    · refine .kept rfl rfl rfl rfl (.inr (.inr ?_)) (.inl rfl) (List.Subset.refl _)
      rw [not_not.mp hstale]
      rfl
  | down handle reason =>
    simp only [step] at hstep
    split_ifs at hstep
    cases hstep
    exact change_onDown c h handle reason _
  | debounceFired =>
    simp only [step] at hstep
    split_ifs at hstep
    cases hstep
    exact .kept rfl rfl rfl rfl (.inr (.inl rfl)) (.inl rfl) (List.Subset.refl _)
  | reconnectFired =>
    simp only [step] at hstep
    split_ifs at hstep with hdue hon
    rotate_left
    · rw [due, (h.stopped (by simpa using hon)).2.2.1] at hdue
      cases hdue
    have hnone : w.poker.stream = none := by
      have hone := h.one hon
      cases htimer : w.poker.reconnectTimer with
      | none =>
        rw [due, htimer] at hdue
        cases hdue
      | some at_ =>
        rw [htimer] at hone
        exact Option.not_isSome_iff_eq_none.mp (by rw [hone]; simp)
    cases hstep
    exact .connected hon rfl rfl rfl (.inl (h.calm hnone)) rfl
  | stableFired =>
    simp only [step] at hstep
    split_ifs at hstep
    cases hstep
    exact .kept rfl rfl rfl rfl (.inl rfl) (.inr (.inl rfl)) (List.Subset.refl _)
  | tick ms =>
    cases hstep
    exact .kept rfl rfl rfl rfl (.inl rfl) (.inl rfl) (List.Subset.refl _)

private theorem Sound.change (h : w.Sound) (hchange : Change w w' e) : w'.Sound := by
  cases hchange with
  | kept hstarted hstream hhandles hreconnect hdebounce hstable hacks =>
    constructor
    · rw [hstarted, hstream, hreconnect]
      exact h.one
    · rw [hstarted, hstream, hreconnect]
      intro hoff
      obtain ⟨hnone, hquiet, hidle, hcalm⟩ := h.stopped hoff
      refine ⟨hnone, ?_, hidle, ?_⟩
      · rcases hdebounce with hsame | hsame | hsome
        · exact hsame.trans hquiet
        · exact hsame
        · rw [hnone] at hsome
          cases hsome
      · rcases hstable with hsame | hsame | ⟨handle, hsome, -⟩
        · exact hsame.trans hcalm
        · exact hsame
        · rw [hnone] at hsome
          cases hsome
    · rw [hstream, hhandles]
      exact h.opened
    · rw [hstream]
      intro hnone
      rcases hstable with hsame | hsame | ⟨handle, hsome, -⟩
      · exact hsame.trans (h.calm hnone)
      · exact hsame
      · rw [hnone] at hsome
        cases hsome
  | connected hstarted hstream hhandles hreconnect hstable hacks =>
    constructor
    · intro
      rw [hstream, hreconnect]
      rfl
    · intro hoff
      rw [hstarted] at hoff
      cases hoff
    · intro handle hhandle
      rw [hstream] at hhandle
      rw [hhandles, ← Option.some.inj hhandle]
      exact Nat.lt_succ_self _
    · intro hnone
      rw [hstream] at hnone
      cases hnone
  | delayed hstarted hstream hhandles hreconnect hstable hacks =>
    constructor
    · intro
      obtain ⟨at_, hat⟩ := Option.isSome_iff_exists.mp hreconnect
      rw [hstream, hat]
      rfl
    · intro hoff
      rw [hstarted] at hoff
      cases hoff
    · intro handle hhandle
      rw [hstream] at hhandle
      cases hhandle
    · exact fun _ => hstable
  | stopped hstarted hstream hhandles hreconnect hdebounce hstable hacks =>
    constructor
    · intro hon
      rw [hstarted] at hon
      cases hon
    · exact fun _ => ⟨hstream, hdebounce, hreconnect, hstable⟩
    · intro handle hhandle
      rw [hstream] at hhandle
      cases hhandle
    · exact fun _ => hstable

theorem Sound.initial : (({} : PokerWorld)).Sound where
  one h := by cases h
  stopped _ := ⟨rfl, rfl, rfl, rfl⟩
  opened _ h := by cases h
  calm _ := rfl

variable {C : PokerWorld → PokerEvent → Prop}

private theorem sound_of_run (h : w.Sound) (hrun : Runs.Run (step c) C w w') : w'.Sound :=
  hrun.invariant (P := Sound) (fun _ _ _ hm _ hstep => hm.change (change_of_step hm hstep)) h

variable {handle : Nat}

theorem retired_of_run (h : w.Sound) (hopened : handle < w.handles) (hother : w.poker.stream ≠ some handle)
    (hrun : Runs.Run (step c) C w w') :
    w'.poker.stream ≠ some handle := by
  suffices hinv : w'.Sound ∧ handle < w'.handles ∧ w'.poker.stream ≠ some handle from hinv.2.2
  refine hrun.invariant (P := fun m => m.Sound ∧ handle < m.handles ∧ m.poker.stream ≠ some handle) ?_
    ⟨h, hopened, hother⟩
  rintro m e m' ⟨hm, hlt, hne⟩ - hstep
  have hchange := change_of_step hm hstep
  refine ⟨hm.change hchange, ?_⟩
  cases hchange with
  | kept _ hstream hhandles => exact ⟨hhandles ▸ hlt, hstream ▸ hne⟩
  | connected _ hstream hhandles =>
    refine ⟨hhandles ▸ Nat.lt_succ_of_lt hlt, fun hsame => ?_⟩
    rw [hstream] at hsame
    exact hlt.ne' (Option.some.inj hsame)
  | delayed _ hstream hhandles => exact ⟨hhandles ▸ hlt, fun hsame => by rw [hstream] at hsame; cases hsame⟩
  | stopped _ hstream hhandles => exact ⟨hhandles ▸ hlt, fun hsame => by rw [hstream] at hsame; cases hsame⟩

/-! ### The delays -/

/-- The stability timer is armed by an acknowledgement of the active stream. -/
private def Armed (w : PokerWorld) : Prop :=
  ∀ due ∈ w.poker.stableTimer, ∃ handle at_, w.poker.stream = some handle ∧ (handle, at_) ∈ w.acks ∧
    due = at_ + STABLE_MS

private theorem Armed.change (h : w.Armed) (hC : w.Unarmed e) (hchange : Change w w' e) : w'.Armed := by
  intro due hdue
  cases hchange with
  | kept hstarted hstream hhandles hreconnect hdebounce hstable hacks =>
    rcases hstable with hsame | hnone | ⟨handle, hcurrent, hack, harmed⟩
    · obtain ⟨handle, at_, hcurrent, hack, hat⟩ := h due (hsame ▸ hdue)
      exact ⟨handle, at_, hstream.trans hcurrent, hacks hack, hat⟩
    · rw [hnone] at hdue
      cases hdue
    · rw [harmed] at hdue
      exact ⟨handle, w.now, hstream.trans hcurrent, hack, (Option.some.inj hdue).symm⟩
  | connected hstarted hstream hhandles hreconnect hstable hacks =>
    exfalso
    rcases hstable with hnone | ⟨hsame, ids, rfl, hchanged, hon⟩
    · rw [hnone] at hdue
      cases hdue
    · rcases hC with heq | hoff | hnone
      · rw [hchanged] at heq
        cases heq
      · rw [hon] at hoff
        cases hoff
      · rw [hsame, hnone] at hdue
        cases hdue
  | delayed hstarted hstream hhandles hreconnect hstable =>
    rw [hstable] at hdue
    cases hdue
  | stopped hstarted hstream hhandles hreconnect hdebounce hstable =>
    rw [hstable] at hdue
    cases hdue

theorem backoffIdx_onDown (c : PokerConfig) (w : PokerWorld) (handle : Nat) (reason : String) :
    w.poker.backoffIdx ≤ (w.onDown c handle reason).poker.backoffIdx := by
  unfold onDown
  split_ifs
  · exact le_rfl
  · have hpoker := (setHealthy_started
      ({ w with poker.stream := none, poker.stableTimer := none } : PokerWorld) false).1
    generalize ({ w with poker.stream := none, poker.stableTimer := none } : PokerWorld).setHealthy false = m at *
    have hsame : m.poker.backoffIdx = w.poker.backoffIdx := by rw [hpoker]
    dsimp only
    split_ifs
    · exact hsame.ge
    · split
      · rename_i poker hdrop
        obtain ⟨types, panes, rfl⟩ := dropRejectedSubscription_kept hdrop
        exact hsame.ge
      · unfold scheduleReconnect
        split_ifs
        · exact hsame.ge
        · exact hsame.ge.trans (Nat.le_succ _)

theorem backoffIdx_onUp (w : PokerWorld) (handle : Nat) :
    (w.onUp handle).poker.backoffIdx = w.poker.backoffIdx := by
  unfold onUp
  split_ifs
  · rfl
  · dsimp only
    rw [(setHealthy_started _ true).1]
    split_ifs <;> rfl

theorem backoffIdx_of_step (hstep : step c w e = some w') :
    w.poker.backoffIdx ≤ w'.poker.backoffIdx ∨ w.due w.poker.stableTimer = true := by
  cases e with
  | stableFired =>
    simp only [step] at hstep
    split_ifs at hstep with hdue
    exact .inr hdue
  | start =>
    cases hstep
    unfold start
    split_ifs <;> exact .inl le_rfl
  | stop | tick =>
    cases hstep
    exact .inl le_rfl
  | setAgentPanes =>
    cases hstep
    unfold setAgentPanes
    split_ifs <;> exact .inl le_rfl
  | up handle =>
    simp only [step] at hstep
    split_ifs at hstep
    cases hstep
    exact .inl (backoffIdx_onUp w handle).ge
  | event handle =>
    simp only [step] at hstep
    split_ifs at hstep
    cases hstep
    unfold onEvent
    split_ifs <;> exact .inl le_rfl
  | down handle reason =>
    simp only [step] at hstep
    split_ifs at hstep
    cases hstep
    exact .inl (backoffIdx_onDown c w handle reason)
  | debounceFired =>
    simp only [step] at hstep
    split_ifs at hstep
    cases hstep
    exact .inl le_rfl
  | reconnectFired =>
    simp only [step] at hstep
    split_ifs at hstep <;> obtain rfl := Option.some.inj hstep <;> exact .inl le_rfl

/-! ### Reconnects without a delay -/

theorem mem_of_rejectedOf {subs : List Subscription} {found : Subscription}
    (h : rejectedOf reason subs = some found) : found ∈ subs := by
  refine List.foldlRecOn (motive := fun best => ∀ found, best = some found → found ∈ subs) subs _
    (fun _ hnone => (by cases hnone)) (fun best hbest s hs found hfound => ?_) found h
  split_ifs at hfound
  · exact Option.some.inj hfound ▸ hs
  · exact hbest found hfound

variable {s : Subscription}

theorem length_subscriptions_lt (hpanes : p'.agentPanes = p.agentPanes)
    (hless : ∀ s, p'.asks s = true → p.asks s = true) (hs : s ∈ buildSubscriptions p.agentPanes)
    (hasked : p.asks s = true) (hdropped : p'.asks s = false) :
    p'.subscriptions.length < p.subscriptions.length := by
  have hfilter : p'.subscriptions = p.subscriptions.filter p'.asks := by
    rw [EventPoker.subscriptions, EventPoker.subscriptions, List.filter_filter, hpanes]
    exact List.filter_congr fun s _ => by
      cases hasks : p'.asks s with
      | false => rfl
      | true => rw [hless s hasks, Bool.and_self]
  rw [hfilter]
  refine List.length_filter_lt_length_iff_exists.mpr ⟨s, List.mem_filter.mpr ⟨hs, hasked⟩, ?_⟩
  rw [hdropped]
  exact Bool.false_ne_true

variable {id : String}

theorem length_subscriptions_dropPane {droppedPanes : Finset String} (hmore : p.droppedPanes ⊆ droppedPanes)
    (hnew : id ∈ droppedPanes) (hold : id ∉ p.droppedPanes)
    (hs : ({ type := AGENT_STATUS_CHANGED, paneId := some id } : Subscription) ∈ buildSubscriptions p.agentPanes) :
    ({ p with droppedPanes } : EventPoker).subscriptions.length < p.subscriptions.length := by
  refine length_subscriptions_lt rfl (fun s hasks => ?_) hs ?_ ?_
  · unfold EventPoker.asks at hasks ⊢
    split_ifs at hasks ⊢ with htype
    · obtain ⟨pane, hpane, hkept⟩ := (Option.any_eq_true _ _).mp hasks
      refine (Option.any_eq_true _ _).mpr ⟨pane, hpane, ?_⟩
      simp only [decide_eq_true_eq] at hkept ⊢
      exact fun hdropped => hkept (hmore hdropped)
    · exact hasks
  · simpa [EventPoker.asks] using hold
  · simpa [EventPoker.asks] using hnew

theorem paneId_of_agentStatus {panes : List String} (hs : s ∈ buildSubscriptions panes)
    (htype : s.type = AGENT_STATUS_CHANGED) (hid : s.paneId = some id) :
    ({ type := AGENT_STATUS_CHANGED, paneId := some id } : Subscription) ∈ buildSubscriptions panes := by
  obtain ⟨type, paneId⟩ := s
  subst htype hid
  exact hs

theorem length_subscriptions_of_drop (h : p.dropRejectedSubscription reason = some p') :
    p'.subscriptions.length < p.subscriptions.length := by
  unfold EventPoker.dropRejectedSubscription at h
  dsimp only at h
  split_ifs at h
  split at h
  · cases h
  rename_i found hfound
  have hmem := mem_of_rejectedOf hfound
  by_cases htype : found.type = AGENT_STATUS_CHANGED
  · rw [if_pos htype] at h
    split_ifs at h with hcard
    cases h
    revert hcard
    split
    · rename_i named hnamed
      intro hcard
      obtain ⟨hpane, -⟩ := Option.filter_eq_some_iff.mp hnamed
      refine length_subscriptions_dropPane (Finset.subset_insert _ _) (Finset.mem_insert_self _ _) (fun hold => ?_)
        (paneId_of_agentStatus hmem htype hpane)
      exact hcard (by rw [Finset.insert_eq_self.mpr hold])
    · intro hcard
      generalize hids : (((buildSubscriptions p.agentPanes).filter (·.type = AGENT_STATUS_CHANGED)).filterMap
        (·.paneId.filter (· ≠ ""))).toFinset = ids at hcard ⊢
      obtain ⟨id, hid, hnew⟩ : ∃ id ∈ ids, id ∉ p.droppedPanes := by
        by_contra hnone
        push Not at hnone
        exact hcard (by rw [Finset.union_eq_left.mpr fun id hid => hnone id hid])
      rw [← hids, List.mem_toFinset, List.mem_filterMap] at hid
      obtain ⟨s, hs, hpane⟩ := hid
      obtain ⟨hs, htype⟩ := List.mem_filter.mp hs
      refine length_subscriptions_dropPane Finset.subset_union_left
        (Finset.mem_union_right _ (hids ▸ List.mem_toFinset.mpr (List.mem_filterMap.mpr
          ⟨s, List.mem_filter.mpr ⟨hs, htype⟩, hpane⟩))) hnew ?_
      exact paneId_of_agentStatus hs (by simpa using htype) (Option.filter_eq_some_iff.mp hpane).1
  · rw [if_neg htype] at h
    split_ifs at h with hdropped
    cases h
    refine length_subscriptions_lt rfl (fun s hasks => ?_) hmem ?_ ?_
    · unfold EventPoker.asks at hasks ⊢
      split_ifs at hasks ⊢
      · exact hasks
      · simp only [Finset.mem_insert, not_or, decide_eq_true_eq] at hasks ⊢
        exact hasks.2
    · simpa [EventPoker.asks, htype] using hdropped
    · simp [EventPoker.asks, htype]

/-- How much a run without a change of the panes may still reconnect at once, over what it did. -/
private def budget (w : PokerWorld) : Nat := w.instantReconnects + w.poker.subscriptions.length

theorem instantReconnects_append {outputs more : List PokerOutput} (hw : w.outputs = outputs)
    (hw' : w'.outputs = outputs ++ more)
    (hnone : ∀ o ∈ more, ∀ handle subs, o ≠ .subscribe handle subs .rejected) :
    w'.instantReconnects = w.instantReconnects := by
  unfold instantReconnects
  rw [hw, hw', List.filter_append, List.length_append, Nat.add_eq_left, List.length_eq_zero_iff,
    List.filter_eq_nil_iff]
  intro o ho
  split
  · exact absurd rfl (hnone _ ho _ _)
  · exact Bool.false_ne_true

private theorem budget_of_outputs (more : List PokerOutput) (hout : w'.outputs = w.outputs ++ more)
    (hnone : ∀ o ∈ more, ∀ handle subs, o ≠ .subscribe handle subs .rejected)
    (hsubs : w'.poker.subscriptions = w.poker.subscriptions) : w'.budget = w.budget := by
  rw [budget, budget, instantReconnects_append rfl hout hnone, hsubs]

theorem budget_setHealthy (w : PokerWorld) (healthy : Bool) : (w.setHealthy healthy).budget = w.budget := by
  unfold setHealthy
  split_ifs
  · rfl
  · exact budget_of_outputs [.health healthy] rfl (by simp) rfl

theorem budget_connect (w : PokerWorld) {cause : ConnectCause} (hcause : cause ≠ .rejected) :
    (w.connect cause).budget = w.budget :=
  budget_of_outputs [.subscribe w.handles w.poker.subscriptions cause] rfl (by simp [hcause]) rfl

theorem budget_onDown (c : PokerConfig) (w : PokerWorld) (handle : Nat) (reason : String) :
    (w.onDown c handle reason).budget ≤ w.budget := by
  unfold onDown
  split_ifs
  · exact le_rfl
  · have hbudget : (({ w with poker.stream := none, poker.stableTimer := none } :
      PokerWorld).setHealthy false).budget = w.budget := budget_setHealthy _ _
    generalize ({ w with poker.stream := none, poker.stableTimer := none } : PokerWorld).setHealthy false = m at *
    dsimp only
    split_ifs
    · exact hbudget.le
    · split
      · rename_i poker hdrop
        have hless := length_subscriptions_of_drop hdrop
        have hone : (({ m with poker } : PokerWorld).connect .rejected).instantReconnects =
      m.instantReconnects + 1 := by
          simp [instantReconnects, connect]
        have hsubs : (({ m with poker } : PokerWorld).connect .rejected).poker.subscriptions =
      poker.subscriptions := rfl
        rw [← hbudget, budget, budget, hone, hsubs]
        omega
      · unfold scheduleReconnect
        split_ifs <;> exact hbudget.le

theorem budget_of_step (hC : w.SamePanes e) (hstep : step c w e = some w') : w'.budget ≤ w.budget := by
  cases e with
  | start =>
    cases hstep
    unfold start
    split_ifs
    · exact le_rfl
    · exact (budget_connect _ (by decide)).le
  | stop =>
    cases hstep
    have hsame : w.stop.budget = w.budget :=
      budget_of_outputs (w.poker.stream.map .close).toList rfl (fun o ho => by
        cases hstream : w.poker.stream <;> simp_all) rfl
    exact hsame.le
  | setAgentPanes ids =>
    cases hstep
    unfold setAgentPanes
    rw [if_pos (show sameIdSet ids w.poker.agentPanes = true from hC)]
  | up handle =>
    simp only [step] at hstep
    split_ifs at hstep
    cases hstep
    unfold onUp
    split_ifs
    · exact le_rfl
    · dsimp only
      rw [budget_setHealthy]
      split_ifs <;> exact le_rfl
  | event handle =>
    simp only [step] at hstep
    split_ifs at hstep
    cases hstep
    unfold onEvent
    split_ifs <;> exact le_rfl
  | down handle reason =>
    simp only [step] at hstep
    split_ifs at hstep
    cases hstep
    exact budget_onDown c w handle reason
  | debounceFired =>
    simp only [step] at hstep
    split_ifs at hstep
    cases hstep
    have hsame : ({ w with poker.debounceTimer := none, outputs := w.outputs ++ [.poke] } : PokerWorld).budget =
        w.budget := budget_of_outputs [.poke] rfl (by simp) rfl
    exact hsame.le
  | reconnectFired =>
    simp only [step] at hstep
    split_ifs at hstep
    · cases hstep
      exact (budget_connect _ (by decide)).le
    · cases hstep
      exact le_rfl
  | stableFired =>
    simp only [step] at hstep
    split_ifs at hstep
    cases hstep
    exact le_rfl
  | tick =>
    cases hstep
    exact le_rfl

/-! ### Runs -/

theorem stale_of_step (he : callbackOf e = some handle) (hother : w.poker.stream ≠ some handle)
    (hstep : step c w e = some w') : w' = w := by
  cases e with
  | up _ | event _ | down _ _ =>
    cases he
    simp only [step, onUp, onEvent, onDown, if_pos hother] at hstep
    split_ifs at hstep
    exact (Option.some.inj hstep).symm
  | _ => cases he

/-- As long as no stream is replaced while the stability timer runs, the keeper is never wedged: it has one of
a stream and a reconnect timer, ignores what was replaced, leaves nothing behind, starts its delays over only
when one stream stayed acknowledged for `STABLE_MS`, and reconnects at once only as often as there are
subscriptions to drop. -/
theorem unwedged_of_unarmed (hrun : Runs.Run (step c) Unarmed {} w) : w.Unwedged c := by
  have hsound : w.Sound := sound_of_run .initial hrun
  have harmed : w.Armed := by
    suffices hinv : w.Sound ∧ w.Armed from hinv.2
    refine hrun.invariant (P := fun m => m.Sound ∧ m.Armed) ?_ ⟨.initial, fun _ h => (by cases h)⟩
    rintro m e m' ⟨hm, harmed⟩ hC hstep
    have hchange := change_of_step hm hstep
    exact ⟨hm.change hchange, harmed.change hC hchange⟩
  constructor
  case one => exact hsound.one
  case stale => exact fun e handle w' he hother hstep => stale_of_step he hother hstep
  case retired => exact fun handle hopened hother w' hrun' => retired_of_run hsound hopened hother hrun'
  case stopped => exact hsound.stopped
  case stable =>
    intro e w' hstep hdelayed hreset
    rcases backoffIdx_of_step hstep with hle | hdue
    · omega
    · obtain ⟨due, htimer, hpast⟩ := (Option.any_eq_true _ _).mp hdue
      obtain ⟨handle, at_, hcurrent, hack, rfl⟩ := harmed due htimer
      exact ⟨handle, at_, hcurrent, hack, by simpa using hpast⟩
  case instant =>
    intro w' hrun'
    have hbudget : w'.budget ≤ w.budget := hrun'.invariant (P := fun m => m.budget ≤ w.budget)
      (fun m e m' hm hC hstep => (budget_of_step hC hstep).trans hm) le_rfl
    exact (Nat.le_add_right _ _).trans hbudget

/-- A stream goes down, comes back after its delay and is acknowledged; its server then rejects a type. -/
private def keptEvents : List PokerEvent :=
  [.start, .up 0, .down 0 "socket closed", .tick 1000, .reconnectFired, .up 1, .event 1, .tick 30000, .stableFired,
    .down 1 "invalid_request: unknown variant pane.exited"]

theorem unwedged_of_unarmed_kept : ∃ w, Runs.Run (step {}) Unarmed {} w ∧
    decide (w.poker.stream = some 2 ∧ w.instantReconnects = 1) = true ∧ w.Unwedged {} := by
  obtain ⟨w, hrun, hw⟩ := Runs.exists_run_of_exec
    (show (Runs.exec (step {}) Unarmed {} keptEvents).any (fun w => decide (w.poker.stream = some 2 ∧
      w.instantReconnects = 1)) =
      true by decide +kernel)
  exact ⟨w, hrun, hw, unwedged_of_unarmed hrun⟩

/-- The second stream is acknowledged and arms the timer; the panes change, and the third stream is not
acknowledged. -/
private def replacedEvents : List PokerEvent :=
  [.start, .down 0 "socket closed", .tick 1000, .reconnectFired, .up 1, .setAgentPanes ["w1:p1"], .tick 30000]

private def replacedReset (w : PokerWorld) : Bool :=
  decide (w.poker.backoffIdx ≠ 0 ∧ w.poker.stream = some 2 ∧ w.acks.all (·.1 ≠ 2) = true) &&
    (step {} w .stableFired).any (·.poker.backoffIdx = 0)

/-- The delays start over `STABLE_MS` after the acknowledgement of a stream that a changed set of panes replaced: the
active stream has acknowledged nothing. -/
theorem backoff_reset_by_replaced : ¬∀ c w, Runs.Run (step c) (fun _ _ => True) {} w → w.Unwedged c := by
  intro h
  obtain ⟨w, hrun, hw⟩ := Runs.exists_run_of_exec
    (show (Runs.exec (step {}) (fun _ _ => True) {} replacedEvents).any replacedReset = true by decide +kernel)
  rw [replacedReset, Bool.and_eq_true, decide_eq_true_iff] at hw
  obtain ⟨⟨hdelayed, hcurrent, hacks⟩, hreset⟩ := hw
  obtain ⟨w', hstep, hzero⟩ := (Option.any_eq_true _ _).mp hreset
  obtain ⟨handle, at_, hstream, hack, -⟩ := (h _ w hrun).stable _ w' hstep hdelayed (by simpa using hzero)
  obtain rfl := Option.some.inj (hcurrent.symm.trans hstream)
  simpa using List.all_eq_true.mp hacks _ hack

end PokerWorld

end Sightr
