import Sightr.Herd.Diff
import Sightr.Lib.Runs

/-!
# The herd's one notification

`NotificationCoordinator` of `bridge/notifications.ts` with its clock and sink. Transitions, removals, changed
preferences (each followed by `applyPrefs`), timers and `clearAll` come in any order; a timer fires at any
time after it was armed, unless it was cancelled.
-/

namespace Sightr

open Keyed

/-! ### The coordinator -/

inductive NotifiableStatus
  | blocked | done
  deriving DecidableEq

def NotifiableStatus.toAgentStatus : NotifiableStatus → AgentStatus
  | .blocked => .blocked
  | .done => .done

structure NotifyPrefs where
  blocked : Bool := true
  done : Bool := false
  deriving DecidableEq

def NotifyPrefs.enables (prefs : NotifyPrefs) : NotifiableStatus → Bool
  | .blocked => prefs.blocked
  | .done => prefs.done

/-- The kind of alert a status makes, if the preferences want one. -/
def NotifyPrefs.notifiable (prefs : NotifyPrefs) : AgentStatus → Option NotifiableStatus
  | .blocked => if prefs.blocked then some .blocked else none
  | .done => if prefs.done then some .done else none
  | _ => none

/-- A pane in a transition, as far as the coordinator reads it. -/
structure NotifyAgent where
  paneId : String
  agent : String
  agentName : Option String := none
  workspaceLabel : String
  cwd : String
  deriving DecidableEq

structure Alert where
  paneId : String
  agent : String
  agentName : Option String
  workspaceLabel : String
  cwd : String
  status : NotifiableStatus
  deriving DecidableEq

def NotifyAgent.alert (agent : NotifyAgent) (status : NotifiableStatus) : Alert where
  paneId := agent.paneId
  agent := agent.agent
  agentName := agent.agentName.filter (· ≠ "")
  workspaceLabel := agent.workspaceLabel
  cwd := agent.cwd
  status

structure HerdSummary where
  title : String
  body : String
  paneId : Option String := none
  renotify : Bool
  deriving DecidableEq

/-- The summary of the alerts shown, of which there is one at least. -/
def summarize (renotify : Bool) : List Alert → HerdSummary
  | [a] => {
      title := a.agentName.getD a.agent ++ " " ++ (if a.status = .blocked then "needs you" else "is done")
      body := a.workspaceLabel ++ " · " ++ a.cwd
      paneId := some a.paneId
      renotify }
  | alerts =>
    let n := toString alerts.length
    { title :=
        if alerts.all (·.status = .blocked) then n ++ " agents need you"
        else if alerts.all (·.status = .done) then n ++ " agents done"
        else n ++ " agents need attention"
      body := ", ".intercalate (alerts.map fun a => a.agentName.getD a.agent)
      renotify }

inductive SinkCall
  | render (summary : HerdSummary)
  | clear
  deriving DecidableEq

structure PendingAlert where
  paneId : String
  handle : Nat
  status : NotifiableStatus
  deriving DecidableEq

/-- A timer of the clock, with the alert its function shows. -/
structure NotifyTimer where
  handle : Nat
  alert : Alert
  deriving DecidableEq

structure NotifyWorld where
  prefs : NotifyPrefs
  pending : Table PendingAlert.paneId
  outstanding : Table Alert.paneId
  timers : List NotifyTimer
  scheduled : Nat
  lastCall : Option SinkCall
  transitions : List (String × AgentStatus)
  /-- The timers whose alerts were cancelled, and those whose alerts were shown. -/
  cancelled : List Nat
  shown : List Nat
  deriving DecidableEq

namespace NotifyWorld

def start (prefs : NotifyPrefs) : NotifyWorld where
  prefs
  pending := .empty
  outstanding := .empty
  timers := []
  scheduled := 0
  lastCall := none
  transitions := []
  cancelled := []
  shown := []

variable (w : NotifyWorld) (paneId : String)

def latest : Option AgentStatus := (w.transitions.find? (·.1 = paneId)).map (·.2)

def cancelPending : NotifyWorld :=
  match w.pending.find? paneId with
  | none => w
  | some p => { w with
      timers := w.timers.filter (·.handle ≠ p.handle)
      pending := w.pending.filter (·.paneId ≠ paneId)
      cancelled := p.handle :: w.cancelled }

def emit (renotify : Bool) : NotifyWorld :=
  { w with lastCall := some <|
      if w.outstanding.rows.isEmpty then .clear else .render (summarize renotify w.outstanding.rows) }

def resolve : NotifyWorld :=
  let w := w.cancelPending paneId
  if w.outstanding.has paneId then
    { w with outstanding := w.outstanding.filter (·.paneId ≠ paneId) }.emit false
  else w

def onTransition (agent : NotifyAgent) (next : AgentStatus) : NotifyWorld :=
  let w := { w with transitions := (agent.paneId, next) :: w.transitions }
  match w.prefs.notifiable next with
  | none => w.resolve agent.paneId
  | some status =>
    let w := w.cancelPending agent.paneId
    { w with
      timers := w.timers ++ [{ handle := w.scheduled, alert := agent.alert status }]
      scheduled := w.scheduled + 1
      pending := w.pending.set { paneId := agent.paneId, handle := w.scheduled, status } }

def fired (t : NotifyTimer) : NotifyWorld :=
  { w with
    timers := w.timers.filter (·.handle ≠ t.handle)
    pending := w.pending.filter (·.paneId ≠ t.alert.paneId)
    outstanding := w.outstanding.set t.alert
    shown := t.handle :: w.shown }.emit true

def cancelAll (alerts : List PendingAlert) : NotifyWorld := alerts.foldl (fun w p => w.cancelPending p.paneId) w

def applyPrefs : NotifyWorld :=
  let w := w.cancelAll (w.pending.rows.filter fun p => !w.prefs.enables p.status)
  if w.outstanding.rows.any (fun a => !w.prefs.enables a.status) then
    { w with outstanding := w.outstanding.filter fun a => w.prefs.enables a.status }.emit false
  else w

def clearAll : NotifyWorld :=
  let w := w.cancelAll w.pending.rows
  if w.outstanding.rows.isEmpty then w
  else { w with outstanding := .empty, lastCall := some .clear }

inductive Event
  | transition (agent : NotifyAgent) (next : AgentStatus)
  | remove (paneId : String)
  | fire (handle : Nat)
  | setPrefs (prefs : NotifyPrefs)
  | clearAll
  deriving DecidableEq

def step : Event → Option NotifyWorld
  | .transition agent next => some (w.onTransition agent next)
  | .remove paneId => some (w.resolve paneId)
  | .fire handle => (w.timers.find? (·.handle = handle)).map w.fired
  | .setPrefs prefs => some { w with prefs }.applyPrefs
  | .clearAll => some w.clearAll

/-- A change of preferences does not cancel an alert in its debounce while its pane's shown alert stays. -/
def KeepsCurrent : Event → Prop
  | .setPrefs prefs => ∀ p ∈ w.pending.rows, ∀ a ∈ w.outstanding.rows, a.paneId = p.paneId →
      prefs.enables p.status = false → prefs.enables a.status = false
  | _ => True

instance (w : NotifyWorld) (e : Event) : Decidable (w.KeepsCurrent e) := by
  unfold KeepsCurrent
  cases e <;> infer_instance

/-! ### What every run keeps -/

/-- The last call of the sink says what is outstanding. -/
def Described : Prop :=
  if w.outstanding.rows = [] then w.lastCall = if w.shown = [] then none else some .clear
  else ∃ renotify, w.lastCall = some (.render (summarize renotify w.outstanding.rows))

/-- The clock holds exactly the timers of the alerts in their debounce, and what was cancelled was not shown. -/
structure Timed (w : NotifyWorld) : Prop where
  handles : (w.timers.map (·.handle)).Nodup
  armed : ∀ t ∈ w.timers, ∃ p ∈ w.pending.rows, p.handle = t.handle ∧ p.paneId = t.alert.paneId ∧
      p.status = t.alert.status
  debounced : ∀ p ∈ w.pending.rows, ∃ t ∈ w.timers, t.handle = p.handle ∧ t.alert.paneId = p.paneId
  given : ∀ h, h ∈ w.timers.map (·.handle) ∨ h ∈ w.cancelled ∨ h ∈ w.shown → h < w.scheduled
  /-- An armed timer's alert was neither cancelled nor shown. -/
  fresh : ∀ t ∈ w.timers, t.handle ∉ w.cancelled ∧ t.handle ∉ w.shown
  never : ∀ h ∈ w.cancelled, h ∉ w.shown

/-- Alerts are of wanted kinds, and the one in its debounce is the pane's latest transition's. -/
structure Wanted (w : NotifyWorld) : Prop where
  pending : ∀ p ∈ w.pending.rows, w.latest p.paneId = some p.status.toAgentStatus ∧ w.prefs.enables p.status = true
  outstanding : ∀ a ∈ w.outstanding.rows, w.prefs.enables a.status = true

/-- A shown alert with none in its pane's debounce is of the pane's latest transition. -/
def Current : Prop :=
  ∀ a ∈ w.outstanding.rows, w.pending.has a.paneId = false → w.latest a.paneId = some a.status.toAgentStatus

variable {w : NotifyWorld}

/-! #### Cancelling -/

@[simp] theorem outstanding_cancelPending : (w.cancelPending paneId).outstanding = w.outstanding := by
  unfold cancelPending
  split <;> rfl

@[simp] theorem prefs_cancelPending : (w.cancelPending paneId).prefs = w.prefs := by
  unfold cancelPending
  split <;> rfl

@[simp] theorem transitions_cancelPending : (w.cancelPending paneId).transitions = w.transitions := by
  unfold cancelPending
  split <;> rfl

@[simp] theorem lastCall_cancelPending : (w.cancelPending paneId).lastCall = w.lastCall := by
  unfold cancelPending
  split <;> rfl

@[simp] theorem shown_cancelPending : (w.cancelPending paneId).shown = w.shown := by
  unfold cancelPending
  split <;> rfl

@[simp] theorem scheduled_cancelPending : (w.cancelPending paneId).scheduled = w.scheduled := by
  unfold cancelPending
  split <;> rfl

variable {paneId : String}

theorem mem_pending_cancelPending {p : PendingAlert} :
    p ∈ (w.cancelPending paneId).pending.rows ↔ p ∈ w.pending.rows ∧ p.paneId ≠ paneId := by
  unfold cancelPending
  split
  · rename_i hnone
    exact ⟨fun hp => ⟨hp, Table.find?_eq_none_iff.mp hnone p hp⟩, And.left⟩
  · simp [Table.filter]

variable {t : NotifyTimer}

theorem mem_timers_cancelPending (h : w.Timed) :
    t ∈ (w.cancelPending paneId).timers ↔ t ∈ w.timers ∧ t.alert.paneId ≠ paneId := by
  unfold cancelPending
  split
  · rename_i hnone
    refine ⟨fun ht => ⟨ht, fun hpane => ?_⟩, And.left⟩
    obtain ⟨p, hp, -, hpp, -⟩ := h.armed t ht
    exact Table.find?_eq_none_iff.mp hnone p hp (hpp.trans hpane)
  · rename_i p hfound
    obtain ⟨hp, hpane⟩ := Table.find?_eq_some_iff.mp hfound
    simp only [List.mem_filter, decide_eq_true_eq]
    refine and_congr_right fun ht => not_congr ?_
    obtain ⟨q, hq, hqh, hqp, -⟩ := h.armed t ht
    constructor
    · -- the timers of one handle are one
      intro hhandle
      obtain ⟨u, hu, huh, hup⟩ := h.debounced p hp
      have hut : u = t := List.inj_on_of_nodup_map h.handles hu ht (huh.trans hhandle.symm)
      rw [← hut, hup, hpane]
    · intro htp
      have hqp' : q = p := w.pending.eq_of_key_eq hq hp (by rw [hqp, htp, hpane])
      rw [← hqh, hqp']

theorem Timed.cancelPending (h : w.Timed) (paneId : String) : (w.cancelPending paneId).Timed := by
  have hsub {t : NotifyTimer} (ht : t ∈ (w.cancelPending paneId).timers) : t ∈ w.timers :=
    ((mem_timers_cancelPending h).mp ht).1
  have hcancelled {n : Nat} (hn : n ∈ (w.cancelPending paneId).cancelled) :
      n ∈ w.cancelled ∨ ∃ t ∈ w.timers, t.handle = n ∧ t.alert.paneId = paneId := by
    unfold NotifyWorld.cancelPending at hn
    split at hn
    · exact .inl hn
    · rename_i p hfound
      obtain ⟨hp, hpane⟩ := Table.find?_eq_some_iff.mp hfound
      rcases List.mem_cons.mp hn with rfl | hn
      · obtain ⟨t, ht, hth, htp⟩ := h.debounced p hp
        exact .inr ⟨t, ht, hth, htp.trans hpane⟩
      · exact .inl hn
  refine ⟨?_, fun t ht => ?_, fun p hp => ?_, fun n hn => ?_, fun t ht => ?_, fun n hn => ?_⟩
  · have hlist : (w.cancelPending paneId).timers.Sublist w.timers := by
      unfold NotifyWorld.cancelPending
      split
      · exact List.Sublist.refl _
      · exact List.filter_sublist
    exact h.handles.sublist (hlist.map _)
  · obtain ⟨ht, hne⟩ := (mem_timers_cancelPending h).mp ht
    obtain ⟨p, hp, hph, hpp, hps⟩ := h.armed t ht
    exact ⟨p, mem_pending_cancelPending.mpr ⟨hp, fun heq => hne (hpp ▸ heq)⟩, hph, hpp, hps⟩
  · obtain ⟨hp, hne⟩ := mem_pending_cancelPending.mp hp
    obtain ⟨t, ht, hth, htp⟩ := h.debounced p hp
    exact ⟨t, (mem_timers_cancelPending h).mpr ⟨ht, fun heq => hne (htp ▸ heq)⟩, hth, htp⟩
  · rw [scheduled_cancelPending]
    rcases hn with hn | hn | hn
    · obtain ⟨t, ht, rfl⟩ := List.mem_map.mp hn
      exact h.given _ (.inl (List.mem_map_of_mem (hsub ht)))
    · rcases hcancelled hn with hn | ⟨t, ht, rfl, -⟩
      · exact h.given n (.inr (.inl hn))
      · exact h.given _ (.inl (List.mem_map_of_mem ht))
    · exact h.given n (.inr (.inr (by simpa using hn)))
  · obtain ⟨htw, hne⟩ := (mem_timers_cancelPending h).mp ht
    refine ⟨fun hn => ?_, by simpa using (h.fresh t htw).2⟩
    rcases hcancelled hn with hn | ⟨u, hu, huh, hup⟩
    · exact (h.fresh t htw).1 hn
    · exact hne (List.inj_on_of_nodup_map h.handles hu htw huh ▸ hup)
  · rw [shown_cancelPending]
    rcases hcancelled hn with hn | ⟨t, ht, rfl, -⟩
    · exact h.never n hn
    · exact (h.fresh t ht).2

variable {w' : NotifyWorld}

theorem Timed.of_eq (h : w.Timed) (hpending : w'.pending = w.pending) (htimers : w'.timers = w.timers)
    (hscheduled : w'.scheduled = w.scheduled) (hcancelled : w'.cancelled = w.cancelled) (hshown : w'.shown = w.shown) :
    w'.Timed :=
  ⟨htimers ▸ h.handles, by rw [hpending, htimers]; exact h.armed, by rw [hpending, htimers]; exact h.debounced,
    by rw [htimers, hscheduled, hcancelled, hshown]; exact h.given,
    by rw [htimers, hcancelled, hshown]; exact h.fresh, by rw [hcancelled, hshown]; exact h.never⟩

theorem Timed.emit (h : w.Timed) (renotify : Bool) : (w.emit renotify).Timed := h.of_eq rfl rfl rfl rfl rfl

theorem Timed.arm (h : w.Timed) (alert : Alert) (hnone : ∀ p ∈ w.pending.rows, p.paneId ≠ alert.paneId) : ({ w with
      timers := w.timers ++ [{ handle := w.scheduled, alert }]
      scheduled := w.scheduled + 1
      pending := w.pending.set { paneId := alert.paneId, handle := w.scheduled, status := alert.status } } :
        NotifyWorld).Timed := by
  have hold {p : PendingAlert} (hp : p ∈ w.pending.rows) : p ∈ (w.pending.set
      { paneId := alert.paneId, handle := w.scheduled, status := alert.status }).rows :=
    Table.mem_set.mpr (.inr ⟨hp, hnone p hp⟩)
  have hnew {n : Nat} (hn : n ∈ w.timers.map (·.handle) ∨ n ∈ w.cancelled ∨ n ∈ w.shown) : n ≠ w.scheduled :=
    Nat.ne_of_lt (h.given n hn)
  refine ⟨?_, fun t ht => ?_, fun p hp => ?_, fun n hn => ?_, fun t ht => ?_, h.never⟩
  · rw [List.map_append, List.nodup_append]
    refine ⟨h.handles, by simp, fun a ha b hb => ?_⟩
    rw [List.map_singleton, List.mem_singleton] at hb
    exact hb ▸ hnew (.inl ha)
  · rcases List.mem_append.mp ht with ht | ht
    · obtain ⟨p, hp, hrest⟩ := h.armed t ht
      exact ⟨p, hold hp, hrest⟩
    · obtain rfl := List.mem_singleton.mp ht
      exact ⟨_, Table.mem_set.mpr (.inl rfl), rfl, rfl, rfl⟩
  · rcases Table.mem_set.mp hp with rfl | ⟨hp, -⟩
    · exact ⟨_, List.mem_append_right _ (List.mem_singleton_self _), rfl, rfl⟩
    · obtain ⟨t, ht, hrest⟩ := h.debounced p hp
      exact ⟨t, List.mem_append_left _ ht, hrest⟩
  · simp only [List.map_append, List.mem_append, List.map_singleton, List.mem_singleton] at hn
    rcases hn with (hn | rfl) | hn
    · exact Nat.lt_succ_of_lt (h.given n (.inl hn))
    · exact Nat.lt_succ_self _
    · exact Nat.lt_succ_of_lt (h.given n (.inr hn))
  · rcases List.mem_append.mp ht with ht | ht
    · exact h.fresh t ht
    · obtain rfl := List.mem_singleton.mp ht
      exact ⟨fun hn => hnew (.inr (.inl hn)) rfl, fun hn => hnew (.inr (.inr hn)) rfl⟩

theorem Timed.fired (h : w.Timed) (ht : t ∈ w.timers) : (w.fired t).Timed := by
  have hother {u : NotifyTimer} (hu : u ∈ w.timers) : u.handle ≠ t.handle ↔ u.alert.paneId ≠ t.alert.paneId := by
    refine not_congr ⟨fun heq => by rw [List.inj_on_of_nodup_map h.handles hu ht heq], fun heq => ?_⟩
    obtain ⟨p, hp, hph, hpp, -⟩ := h.armed u hu
    obtain ⟨q, hq, hqh, hqp, -⟩ := h.armed t ht
    rw [← hph, ← hqh, w.pending.eq_of_key_eq hp hq (by rw [hpp, hqp, heq])]
  refine Timed.emit ⟨?_, fun u hu => ?_, fun p hp => ?_, fun n hn => ?_, fun u hu => ?_, fun n hn => ?_⟩ true
  · exact h.handles.sublist (List.filter_sublist.map _)
  · simp only [List.mem_filter, decide_eq_true_eq] at hu
    obtain ⟨p, hp, hph, hpp, hps⟩ := h.armed u hu.1
    exact ⟨p, by simpa [Table.filter] using ⟨hp, hpp ▸ (hother hu.1).mp hu.2⟩, hph, hpp, hps⟩
  · simp only [Table.filter, List.mem_filter, decide_eq_true_eq] at hp
    obtain ⟨u, hu, huh, hup⟩ := h.debounced p hp.1
    exact ⟨u, by simpa using ⟨hu, (hother hu).mpr (hup ▸ hp.2)⟩, huh, hup⟩
  · rcases hn with hn | hn | hn
    · obtain ⟨u, hu, rfl⟩ := List.mem_map.mp hn
      exact h.given _ (.inl (List.mem_map_of_mem (List.mem_of_mem_filter hu)))
    · exact h.given n (.inr (.inl hn))
    · rcases List.mem_cons.mp hn with rfl | hn
      · exact h.given _ (.inl (List.mem_map_of_mem ht))
      · exact h.given n (.inr (.inr hn))
  · simp only [List.mem_filter, decide_eq_true_eq] at hu
    refine ⟨(h.fresh u hu.1).1, fun hn => ?_⟩
    rcases List.mem_cons.mp hn with heq | hn
    · exact hu.2 heq
    · exact (h.fresh u hu.1).2 hn
  · intro hshown
    rcases List.mem_cons.mp hshown with rfl | hshown
    · exact (h.fresh t ht).1 hn
    · exact h.never n hn hshown

theorem cancelAll_spec (alerts : List PendingAlert) (h : w.Timed) :
    (w.cancelAll alerts).Timed ∧ (w.cancelAll alerts).outstanding = w.outstanding ∧
      (w.cancelAll alerts).prefs = w.prefs ∧ (w.cancelAll alerts).transitions = w.transitions ∧
      (w.cancelAll alerts).lastCall = w.lastCall ∧ (w.cancelAll alerts).shown = w.shown ∧
      ∀ p, p ∈ (w.cancelAll alerts).pending.rows ↔ p ∈ w.pending.rows ∧ ∀ q ∈ alerts, p.paneId ≠ q.paneId := by
  induction alerts generalizing w with
  | nil => exact ⟨h, rfl, rfl, rfl, rfl, rfl, by simp [cancelAll]⟩
  | cons q alerts ih =>
    obtain ⟨htimed, hout, hprefs, htrans, hcall, hshown, hpending⟩ := ih (h.cancelPending q.paneId)
    refine ⟨htimed, hout.trans (by simp), hprefs.trans (by simp), htrans.trans (by simp), hcall.trans (by simp),
      hshown.trans (by simp), fun p => ?_⟩
    rw [show w.cancelAll (q :: alerts) = (w.cancelPending q.paneId).cancelAll alerts from rfl, hpending,
      mem_pending_cancelPending, and_assoc, List.forall_mem_cons]

/-! #### Steps -/

/-- What holds in every run, whatever the preferences do. -/
structure Sound (w : NotifyWorld) : Prop where
  timed : w.Timed
  wanted : w.Wanted
  described : w.Described
  once : w.outstanding.rows ≠ [] → w.shown ≠ []

theorem described_emit {renotify : Bool} (h : w.shown ≠ []) : (w.emit renotify).Described := by
  unfold Described emit
  by_cases hempty : w.outstanding.rows = []
  · simp [hempty, h]
  · simp only [hempty, List.isEmpty_iff, if_false]
    exact ⟨renotify, rfl⟩

private theorem Sound.start (prefs : NotifyPrefs) : (NotifyWorld.start prefs).Sound := by
  refine ⟨⟨List.nodup_nil, ?_, ?_, ?_, ?_, ?_⟩, ⟨?_, ?_⟩, rfl, fun h => absurd rfl h⟩ <;>
    simp [NotifyWorld.start, Table.empty]

private theorem Sound.cancelPending (h : w.Sound) (paneId : String) : (w.cancelPending paneId).Sound := by
  refine ⟨h.timed.cancelPending paneId, ⟨fun p hp => ?_, by simpa using h.wanted.outstanding⟩, ?_,
      by simpa using h.once⟩
  · simpa [latest] using h.wanted.pending p (mem_pending_cancelPending.mp hp).1
  · simpa [Described] using h.described

private theorem Sound.resolve (h : (w.cancelPending paneId).Sound) : (w.resolve paneId).Sound := by
  unfold NotifyWorld.resolve
  dsimp only
  split
  · rename_i hhas
    obtain ⟨a, ha, -⟩ := Table.has_iff.mp hhas
    have hshown : (w.cancelPending paneId).shown ≠ [] := h.once (List.ne_nil_of_mem ha)
    refine ⟨h.timed.of_eq rfl rfl rfl rfl rfl, ⟨h.wanted.pending, fun a ha => ?_⟩, described_emit hshown,
      fun _ => hshown⟩
    exact h.wanted.outstanding a (List.mem_of_mem_filter ha)
  · exact h

variable {agent : String} {next : AgentStatus}

theorem latest_cons_of_ne (h : agent ≠ paneId) :
    ({ w with transitions := (agent, next) :: w.transitions } : NotifyWorld).latest paneId = w.latest paneId := by
  simp [latest, h]

theorem latest_cons_self :
    ({ w with transitions := (agent, next) :: w.transitions } : NotifyWorld).latest agent = some next := by
  simp [latest]

theorem latest_cancelPending (paneId other : String) : (w.cancelPending paneId).latest other = w.latest other := by
  simp [latest]

private theorem Sound.transition (h : w.Sound) (paneId : String) (next : AgentStatus) :
    (({ w with transitions := (paneId, next) :: w.transitions } : NotifyWorld).cancelPending paneId).Sound := by
  have htimed : ({ w with transitions := (paneId, next) :: w.transitions } : NotifyWorld).Timed :=
    h.timed.of_eq rfl rfl rfl rfl rfl
  refine ⟨htimed.cancelPending paneId, ⟨fun p hp => ?_, by simpa using h.wanted.outstanding⟩, ?_,
      by simpa using h.once⟩
  · obtain ⟨hp, hne⟩ := mem_pending_cancelPending.mp hp
    rw [latest_cancelPending, latest_cons_of_ne (Ne.symm hne), prefs_cancelPending]
    exact h.wanted.pending p hp
  · simpa [Described] using h.described

variable {prefs : NotifyPrefs}

theorem enables_of_notifiable {status : NotifiableStatus} (h : prefs.notifiable next = some status) :
    prefs.enables status = true ∧ next = status.toAgentStatus := by
  unfold NotifyPrefs.notifiable at h
  split at h
  · split at h <;> cases h
    exact ⟨‹_›, rfl⟩
  · split at h <;> cases h
    exact ⟨‹_›, rfl⟩
  · cases h

section

variable (h : w.Sound)
include h

private theorem Sound.onTransition (agent : NotifyAgent) (next : AgentStatus) : (w.onTransition agent next).Sound := by
  have hc := h.transition agent.paneId next
  unfold NotifyWorld.onTransition
  dsimp only
  split
  · exact Sound.resolve hc
  · rename_i status hstatus
    obtain ⟨hwanted, rfl⟩ := enables_of_notifiable hstatus
    refine ⟨?_, ⟨fun p hp => ?_, hc.wanted.outstanding⟩, hc.described, hc.once⟩
    · exact hc.timed.arm (agent.alert status) fun p hp => (mem_pending_cancelPending.mp hp).2
    · rcases Table.mem_set.mp hp with rfl | ⟨hp, -⟩
      · refine ⟨?_, by simpa using hwanted⟩
        exact (latest_cancelPending agent.paneId agent.paneId).trans latest_cons_self
      · exact hc.wanted.pending p hp

private theorem Sound.alert (ht : t ∈ w.timers) :
    w.latest t.alert.paneId = some t.alert.status.toAgentStatus ∧ w.prefs.enables t.alert.status = true := by
  obtain ⟨p, hp, -, hpp, hps⟩ := h.timed.armed t ht
  rw [← hpp, ← hps]
  exact h.wanted.pending p hp

private theorem Sound.fired (ht : t ∈ w.timers) : (w.fired t).Sound := by
  refine ⟨h.timed.fired ht, ⟨fun p hp => h.wanted.pending p (List.mem_of_mem_filter hp), fun a ha => ?_⟩,
    described_emit (List.cons_ne_nil _ _), fun _ => List.cons_ne_nil _ _⟩
  rcases Table.mem_set.mp ha with rfl | ⟨ha, -⟩
  · exact (h.alert ht).2
  · exact h.wanted.outstanding a ha

private theorem Sound.setPrefs (prefs : NotifyPrefs) : ({ w with prefs } : NotifyWorld).applyPrefs.Sound := by
  have htimed : ({ w with prefs } : NotifyWorld).Timed := h.timed.of_eq rfl rfl rfl rfl rfl
  obtain ⟨htimed', hout, hprefs, htrans, hcall, hshown, hpending⟩ :=
    cancelAll_spec (w.pending.rows.filter fun p => !prefs.enables p.status) htimed
  have hwanted (p : PendingAlert) (hp : p ∈ (({ w with prefs } : NotifyWorld).cancelAll
        (w.pending.rows.filter fun p => !prefs.enables p.status)).pending.rows) :
      w.latest p.paneId = some p.status.toAgentStatus ∧ prefs.enables p.status = true := by
    obtain ⟨hpw, hkept⟩ := (hpending p).mp hp
    refine ⟨(h.wanted.pending p hpw).1, ?_⟩
    by_contra hdisabled
    exact hkept p (List.mem_filter.mpr ⟨hpw, by simpa using hdisabled⟩) rfl
  unfold NotifyWorld.applyPrefs
  dsimp only
  split
  · rename_i hany
    have hnone : w.shown ≠ [] := by
      obtain ⟨a, ha, -⟩ := List.any_eq_true.mp hany
      exact h.once (List.ne_nil_of_mem (hout ▸ ha))
    refine ⟨htimed'.of_eq rfl rfl rfl rfl rfl, ⟨fun p hp => ?_, fun a ha => ?_⟩,
      described_emit (by simpa only [hshown] using hnone), fun _ => by simpa only [emit, hshown] using hnone⟩
    · simpa only [emit, latest, hprefs, htrans] using hwanted p hp
    · simp only [emit, Table.filter, List.mem_filter] at ha
      exact ha.2
  · rename_i hany
    refine ⟨htimed', ⟨fun p hp => ?_, fun a ha => ?_⟩, ?_, by simpa only [hout, hshown] using h.once⟩
    · simpa only [latest, hprefs, htrans] using hwanted p hp
    · simp only [List.any_eq_true, not_exists, not_and, Bool.not_eq_true', Bool.not_eq_false] at hany
      exact hany a ha
    · simpa only [Described, hout, hcall, hshown] using h.described

private theorem Sound.clearAll : w.clearAll.Sound := by
  obtain ⟨htimed, hout, hprefs, htrans, hcall, hshown, hpending⟩ := cancelAll_spec w.pending.rows h.timed
  have hwanted (p : PendingAlert) (hp : p ∈ (w.cancelAll w.pending.rows).pending.rows) :
      w.latest p.paneId = some p.status.toAgentStatus ∧ w.prefs.enables p.status = true :=
    h.wanted.pending p ((hpending p).mp hp).1
  unfold NotifyWorld.clearAll
  dsimp only
  split
  · refine ⟨htimed, ⟨fun p hp => ?_, by simpa only [hout, hprefs] using h.wanted.outstanding⟩,
      by simpa only [Described, hout, hcall, hshown] using h.described, by simpa only [hout, hshown] using h.once⟩
    simpa only [latest, hprefs, htrans] using hwanted p hp
  · rename_i hne
    have hshown' : w.shown ≠ [] := h.once (by simpa [hout] using hne)
    refine ⟨htimed.of_eq rfl rfl rfl rfl rfl, ⟨fun p hp => ?_, by simp [Table.empty]⟩, ?_, fun h => absurd rfl h⟩
    · simpa only [latest, hprefs, htrans] using hwanted p hp
    · simp [Described, Table.empty, hshown, hshown']

end

variable {e : Event}

theorem Sound.step (h : w.Sound) (hstep : w.step e = some w') : w'.Sound := by
  cases e with
  | transition agent next =>
    cases hstep
    exact h.onTransition agent next
  | remove paneId =>
    cases hstep
    exact Sound.resolve (h.cancelPending paneId)
  | fire handle =>
    obtain ⟨t, ht, rfl⟩ := Option.map_eq_some_iff.mp hstep
    exact h.fired (List.mem_of_find?_eq_some ht)
  | setPrefs prefs =>
    cases hstep
    exact h.setPrefs prefs
  | clearAll =>
    cases hstep
    exact h.clearAll

theorem has_pending (h : ∀ p : PendingAlert, p.paneId = paneId → (p ∈ w'.pending.rows ↔ p ∈ w.pending.rows)) :
    w'.pending.has paneId = w.pending.has paneId := by
  rw [Bool.eq_iff_iff, Table.has_iff, Table.has_iff]
  exact exists_congr fun p => ⟨fun ⟨hp, hk⟩ => ⟨(h p hk).mp hp, hk⟩, fun ⟨hp, hk⟩ => ⟨(h p hk).mpr hp, hk⟩⟩

theorem has_pending_cancelPending {other : String} (h : other ≠ paneId) :
    (w.cancelPending paneId).pending.has other = w.pending.has other :=
  has_pending fun p hp => by rw [mem_pending_cancelPending, and_iff_left (by rw [hp]; exact h)]

theorem current_resolve (hother : ∀ a ∈ w.outstanding.rows, a.paneId ≠ paneId → w.pending.has a.paneId = false →
      w.latest a.paneId = some a.status.toAgentStatus) :
    (w.resolve paneId).Current := by
  have hgone (a : Alert) (hne : a.paneId ≠ paneId) (ha : a ∈ w.outstanding.rows)
      (hnone : (w.cancelPending paneId).pending.has a.paneId = false) :
      (w.cancelPending paneId).latest a.paneId = some a.status.toAgentStatus := by
    rw [latest_cancelPending]
    exact hother a ha hne (has_pending_cancelPending hne ▸ hnone)
  unfold NotifyWorld.resolve
  dsimp only
  split
  · intro a ha hnone
    simp only [emit, Table.filter, outstanding_cancelPending, List.mem_filter, decide_eq_true_eq] at ha
    exact hgone a ha.2 ha.1 hnone
  · rename_i hhas
    intro a ha hnone
    refine hgone a (fun hpane => hhas ?_) (by simpa using ha) hnone
    exact Table.has_iff.mpr ⟨a, ha, hpane⟩

private theorem Current.onTransition (h : w.Current) (agent : NotifyAgent) (next : AgentStatus) :
    (w.onTransition agent next).Current := by
  have hother (a : Alert) (ha : a ∈ w.outstanding.rows) (hne : a.paneId ≠ agent.paneId)
      (hnone : w.pending.has a.paneId = false) : ({ w with
        transitions := (agent.paneId, next) :: w.transitions } : NotifyWorld).latest a.paneId =
        some a.status.toAgentStatus := by
    rw [latest_cons_of_ne (Ne.symm hne)]
    exact h a ha hnone
  unfold NotifyWorld.onTransition
  dsimp only
  split
  · exact current_resolve hother
  · intro a ha hnone
    rw [Table.has, Table.find?_set] at hnone
    split at hnone
    · cases hnone
    · rename_i hne
      have hne' : a.paneId ≠ agent.paneId := fun heq => hne heq.symm
      have hpending : (({ w with transitions := (agent.paneId, next) :: w.transitions } : NotifyWorld).cancelPending
          agent.paneId).pending.has a.paneId = false := hnone
      rw [has_pending_cancelPending hne'] at hpending
      exact (latest_cancelPending agent.paneId a.paneId).trans (hother a (by simpa using ha) hne' hpending)

private theorem Current.fired (hsound : w.Sound) (h : w.Current) (ht : t ∈ w.timers) : (w.fired t).Current := by
  intro a ha hnone
  rcases Table.mem_set.mp ha with rfl | ⟨ha, hne⟩
  · exact (hsound.alert ht).1
  · refine h a ha ?_
    rw [← hnone]
    refine (has_pending fun p hp => ?_).symm
    simp only [NotifyWorld.fired, emit, Table.filter, List.mem_filter, decide_eq_true_eq]
    exact and_iff_left fun heq => hne (hp ▸ heq)

private theorem Current.setPrefs (hsound : w.Sound) (h : w.Current) (hkeeps : w.KeepsCurrent (.setPrefs prefs)) :
    ({ w with prefs } : NotifyWorld).applyPrefs.Current := by
  have htimed : ({ w with prefs } : NotifyWorld).Timed := hsound.timed.of_eq rfl rfl rfl rfl rfl
  obtain ⟨-, hout, hprefs, htrans, -, -, hpending⟩ :=
    cancelAll_spec (w.pending.rows.filter fun p => !prefs.enables p.status) htimed
  -- an alert that stays had none in its pane's debounce before
  have hkept (a : Alert) (ha : a ∈ w.outstanding.rows) (hwanted : prefs.enables a.status = true)
      (hnone : (({ w with prefs } : NotifyWorld).cancelAll
        (w.pending.rows.filter fun p => !prefs.enables p.status)).pending.has a.paneId = false) :
      w.latest a.paneId = some a.status.toAgentStatus := by
    refine h a ha ?_
    rw [← Bool.not_eq_true, Table.has_iff] at hnone ⊢
    rintro ⟨p, hp, hpane⟩
    refine hnone ⟨p, (hpending p).mpr ⟨hp, fun q hq heq => ?_⟩, hpane⟩
    obtain ⟨hq, hdisabled⟩ := List.mem_filter.mp hq
    obtain rfl := w.pending.eq_of_key_eq hp hq heq
    have hgone := hkeeps p hp a ha hpane.symm (by simpa using hdisabled)
    simp [hwanted] at hgone
  unfold NotifyWorld.applyPrefs
  dsimp only
  split
  · intro a ha hnone
    simp only [emit, Table.filter, List.mem_filter] at ha
    have hlatest := hkept a (hout ▸ ha.1) (by simpa only [hprefs] using ha.2) hnone
    simpa only [emit, latest, htrans] using hlatest
  · rename_i hany
    simp only [List.any_eq_true, not_exists, not_and, Bool.not_eq_true', Bool.not_eq_false] at hany
    intro a ha hnone
    have hlatest := hkept a (hout ▸ ha) (by simpa only [hprefs] using hany a ha) hnone
    simpa only [latest, htrans] using hlatest

theorem Current.step (hsound : w.Sound) (h : w.Current) (hkeeps : w.KeepsCurrent e) (hstep : w.step e = some w') :
    w'.Current := by
  cases e with
  | transition agent next =>
    cases hstep
    exact h.onTransition agent next
  | remove paneId =>
    cases hstep
    exact current_resolve fun a ha _ hnone => h a ha hnone
  | fire handle =>
    obtain ⟨t, ht, rfl⟩ := Option.map_eq_some_iff.mp hstep
    exact h.fired hsound (List.mem_of_find?_eq_some ht)
  | setPrefs prefs =>
    cases hstep
    exact h.setPrefs hsound hkeeps
  | clearAll =>
    cases hstep
    have hempty : w.clearAll.outstanding.rows = [] := by
      unfold NotifyWorld.clearAll
      dsimp only
      split
      · rename_i hempty
        simpa using hempty
      · rfl
    intro a ha
    simp [hempty] at ha

/-! ### Accuracy -/

/-- In every run whose changes of preferences cancel no alert of a pane that keeps another one shown: each pane
has one timer at most; the last call of the sink says what is outstanding; no cancelled alert was shown; and a
shown alert with none in its pane's debounce is of the pane's latest transition and of a wanted kind. Only the
last but one needs the condition. -/
theorem accurate {prefs : NotifyPrefs} (h : Runs.Run step KeepsCurrent (start prefs) w) :
    (w.timers.map (·.alert.paneId)).Nodup ∧ w.Described ∧ (∀ n ∈ w.cancelled, n ∉ w.shown) ∧
    ∀ a ∈ w.outstanding.rows, (w.pending.has a.paneId = false → w.latest a.paneId = some a.status.toAgentStatus) ∧
      w.prefs.enables a.status = true := by
  obtain ⟨hsound, hcurrent⟩ := Runs.Run.invariant (P := fun w => w.Sound ∧ w.Current)
    (fun _ _ _ hm hkeeps hstep => ⟨hm.1.step hstep, hm.2.step hm.1 hkeeps hstep⟩) h
    ⟨Sound.start prefs, fun a ha => by simp [start, Table.empty] at ha⟩
  refine ⟨?_, hsound.described, hsound.timed.never, fun a ha => ⟨hcurrent a ha, hsound.wanted.outstanding a ha⟩⟩
  refine List.Nodup.map_on (fun t ht u hu hpane => ?_) hsound.timed.handles.of_map
  obtain ⟨p, hp, hph, hpp, -⟩ := hsound.timed.armed t ht
  obtain ⟨q, hq, hqh, hqp, -⟩ := hsound.timed.armed u hu
  have hpq : p = q := w.pending.eq_of_key_eq hp hq (by rw [hpp, hqp, hpane])
  exact List.inj_on_of_nodup_map hsound.timed.handles ht hu (by rw [← hph, ← hqh, hpq])

def pane : NotifyAgent where
  paneId := "w1:p1"
  agent := "claude"
  workspaceLabel := "demo"
  cwd := "/srv"

/-- An alert is shown and then its kind is switched off. -/
theorem accurate_run : ∃ w, Runs.Run step KeepsCurrent (start {}) w ∧ w.lastCall = some .clear ∧ w.Described := by
  have hends : (Runs.exec step KeepsCurrent (start {}) [.transition pane .blocked, .fire 0,
      .setPrefs { blocked := false }]).any (·.lastCall = some .clear) = true := by decide
  obtain ⟨w, hrun, hcall⟩ := Runs.exists_run_of_exec hends
  exact ⟨w, hrun, of_decide_eq_true hcall, (accurate hrun).2.1⟩

/-- A shown alert outlives the transition that replaced it: the pane is done, and the notification says that it
needs the operator. -/
theorem stale_alert : ∃ w, Runs.Run step (fun _ _ => True) (start { done := true }) w ∧
    ∃ a ∈ w.outstanding.rows, w.pending.has a.paneId = false ∧ w.latest a.paneId = some .done ∧
      a.status = .blocked := by
  have hends : (Runs.exec step (fun _ _ => True) (start { done := true }) [.transition pane .blocked, .fire 0,
      .transition pane .done, .setPrefs { done := false }]).any (fun w => w.outstanding.rows.any fun a =>
        !w.pending.has a.paneId && w.latest a.paneId = some .done && a.status = .blocked) = true := by decide
  obtain ⟨w, hrun, hany⟩ := Runs.exists_run_of_exec hends
  obtain ⟨a, ha, hstale⟩ := List.any_eq_true.mp hany
  simp only [Bool.and_eq_true, Bool.not_eq_true', decide_eq_true_eq] at hstale
  exact ⟨w, hrun, a, ha, hstale.1.1, hstale.1.2, hstale.2⟩

end NotifyWorld

end Sightr
