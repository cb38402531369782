import Sightr.Herd.Diff
import Sightr.Lib.Runs

/-!
# The engine's statuses

What a poll of `StateEngine` (`bridge/state-engine.ts`) makes of the panes' statuses. A resting status is held
back while it may be a blip between two tool calls: the pane stays `working` until the rest has lasted. What
is published is then compared with what was published last.

A poll is what it read, with dialogs and beacons applied; herdr lists a pane once. The listeners of a
transition only look.
-/

namespace Sightr

open Keyed (Table)

/-- How long a resting status must persist after `working` before the snapshot believes the turn ended. -/
def STATUS_HOLD_MS : Int := 3000

def RESTING_STATUS : List AgentStatus := [.idle, .done, .unknown]

def STATUS_RANK : AgentStatus → Nat
  | .blocked => 0
  | .working => 1
  | .unknown => 2
  | .idle => 3
  | .done => 4

/-- What herdr lists: panes with pairwise distinct ids. -/
abbrev PaneTable := Table AgentView.paneId

def PaneTable.statusOf (panes : PaneTable) (id : String) : Option AgentStatus :=
  (panes.find? id).map AgentView.status

/-- The statuses published last, and since when a rest is held back. -/
structure StateEngine where
  prevStatus : String → Option AgentStatus := fun _ => none
  statusHold : String → Option Int := fun _ => none

structure StatusTransition where
  agent : AgentView
  prev : AgentStatus
  status : AgentStatus
  deriving DecidableEq

/-- A successful poll: what it read, what it published, and the transitions it fired. -/
structure Published where
  time : Int
  polled : PaneTable
  agents : PaneTable
  transitions : List StatusTransition

namespace StateEngine

variable (e : StateEngine) (now : Int)

def setHold (id : String) (since : Option Int) : StateEngine :=
  { e with statusHold := fun other => if other = id then since else e.statusHold other }

variable (a : AgentView)

def holdAgent : AgentView × StateEngine :=
  if e.prevStatus a.paneId = some .working ∧ a.status ∈ RESTING_STATUS then
    match e.statusHold a.paneId with
    | none => ({ a with status := .working }, e.setHold a.paneId (some now))
    | some since =>
      if now - since < STATUS_HOLD_MS then ({ a with status := .working }, e) else (a, e.setHold a.paneId none)
  else (a, e.setHold a.paneId none)

def holdAgents : StateEngine → List AgentView → List AgentView × StateEngine
  | e, [] => ([], e)
  | e, a :: rest =>
    let held := e.holdAgent now a
    let others := holdAgents held.2 rest
    (held.1 :: others.1, others.2)

variable (agents : List AgentView)

def isLive (id : String) : Bool := agents.any (·.paneId = id)

/-- The holds of panes that are gone are dropped; the others are asked in turn. -/
def applyStatusHold : List AgentView × StateEngine :=
  holdAgents now { e with statusHold := fun id => if isLive agents id then e.statusHold id else none } agents

/-- Triage order: what needs you first, then by space, then by pane. -/
def byTriage (paneOrder : String → String → Bool) (a b : AgentView) : Prop :=
  STATUS_RANK a.status < STATUS_RANK b.status ∨ STATUS_RANK a.status = STATUS_RANK b.status ∧
    (a.workspaceNumber < b.workspaceNumber ∨ a.workspaceNumber = b.workspaceNumber ∧ paneOrder a.paneId b.paneId)

instance (paneOrder : String → String → Bool) : DecidableRel (byTriage paneOrder) := fun _ _ =>
  inferInstanceAs (Decidable (_ ∨ _ ∧ (_ ∨ _ ∧ _)))

/-- A pane is compared with what was published of it last; a first sighting fires nothing. -/
def fire : List StatusTransition :=
  match e.prevStatus a.paneId with
  | some prev => if prev ≠ a.status then [⟨a, prev, a.status⟩] else []
  | none => []

def publish : StateEngine → List AgentView → List StatusTransition × StateEngine
  | e, [] => ([], e)
  | e, a :: rest =>
    let others := publish { e with
      prevStatus := fun id => if id = a.paneId then some a.status else e.prevStatus id } rest
    (e.fire a ++ others.1, others.2)

/-- A pane that is gone leaves nothing behind, so that a reused id starts clean. -/
def removeGone : StateEngine where
  prevStatus id := if isLive agents id then e.prevStatus id else none
  statusHold id := if (e.prevStatus id).isSome && !isLive agents id then none else e.statusHold id

/-! ### What a poll does to one pane -/

def heldStatus (now : Int) (prev : Option AgentStatus) (since : Option Int) (status : AgentStatus) : AgentStatus :=
  if prev = some .working ∧ status ∈ RESTING_STATUS ∧ since.all (now - · < STATUS_HOLD_MS) then .working else status

def heldSince (now : Int) (prev : Option AgentStatus) (since : Option Int) (status : AgentStatus) : Option Int :=
  if prev = some .working ∧ status ∈ RESTING_STATUS then (some (since.getD now)).filter (now - · < STATUS_HOLD_MS)
  else none

variable {e : StateEngine} {now : Int} {id : String}

theorem setHold_self (e : StateEngine) (id : String) : e.setHold id (e.statusHold id) = e := by
  unfold setHold
  congr 1
  funext other
  split_ifs with hother
  · rw [hother]
  · rfl

theorem holdAgent_eq : e.holdAgent now a =
    ({ a with status := heldStatus now (e.prevStatus a.paneId) (e.statusHold a.paneId) a.status },
      e.setHold a.paneId (heldSince now (e.prevStatus a.paneId) (e.statusHold a.paneId) a.status)) := by
  unfold holdAgent heldStatus heldSince
  by_cases hrests : e.prevStatus a.paneId = some .working ∧ a.status ∈ RESTING_STATUS
  · rw [if_pos hrests, if_pos hrests]
    cases hsince : e.statusHold a.paneId with
    | none => simp [hrests.1, hrests.2, STATUS_HOLD_MS, Option.filter_some]
    | some since =>
      by_cases hshort : now - since < STATUS_HOLD_MS
      · have hself := setHold_self e a.paneId
        rw [hsince] at hself
        simp [hrests.1, hrests.2, hshort, Option.filter_some, hself]
      · simp [hrests.1, hrests.2, hshort, Option.filter_some]
  · rw [if_neg hrests, if_neg hrests, if_neg fun h => hrests ⟨h.1, h.2.1⟩]

private def paneOf (id : String) : Option AgentView := agents.find? (·.paneId = id)

theorem paneOf_cons (rest : List AgentView) :
    paneOf (a :: rest) id = if a.paneId = id then some a else paneOf rest id := by
  unfold paneOf
  rw [List.find?_cons]
  by_cases h : a.paneId = id <;> simp [h]

theorem paneOf_eq_none (h : id ∉ agents.map AgentView.paneId) : paneOf agents id = none := by
  refine List.find?_eq_none.mpr fun a ha => ?_
  rw [decide_eq_true_eq]
  rintro rfl
  exact h (List.mem_map_of_mem ha)

theorem prevStatus_holdAgents : (holdAgents now e agents).2.prevStatus = e.prevStatus := by
  induction agents generalizing e with
  | nil => rfl
  | cons a rest ih => rw [holdAgents, ih, holdAgent_eq, setHold]

theorem paneOf_holdAgents : paneOf (holdAgents now e agents).1 id = (paneOf agents id).map fun a =>
      { a with status := heldStatus now (e.prevStatus id) (e.statusHold id) a.status } := by
  induction agents generalizing e with
  | nil => rfl
  | cons a rest ih =>
    rw [holdAgents, paneOf_cons, paneOf_cons, ih, holdAgent_eq]
    by_cases hid : a.paneId = id
    · simp [hid]
    · simp [hid, setHold, Ne.symm hid]

variable {agents : List AgentView}

theorem statusHold_holdAgents (h : (agents.map AgentView.paneId).Nodup) :
    (holdAgents now e agents).2.statusHold id = (paneOf agents id).elim (e.statusHold id) fun a =>
      heldSince now (e.prevStatus id) (e.statusHold id) a.status := by
  induction agents generalizing e with
  | nil => rfl
  | cons a rest ih =>
    rw [List.map_cons, List.nodup_cons] at h
    rw [holdAgents, ih h.2, paneOf_cons, holdAgent_eq]
    by_cases hid : a.paneId = id
    · subst hid
      rw [paneOf_eq_none rest h.1]
      simp [setHold]
    · simp [hid, setHold, Ne.symm hid]

theorem isLive_eq (agents : List AgentView) : isLive agents id = (paneOf agents id).isSome := by
  unfold isLive paneOf
  rw [Bool.eq_iff_iff, List.find?_isSome, List.any_eq_true]

theorem ids_applyStatusHold (agents : List AgentView) :
    (e.applyStatusHold now agents).1.map AgentView.paneId = agents.map AgentView.paneId := by
  unfold applyStatusHold
  generalize ({ e with statusHold := _ } : StateEngine) = e
  induction agents generalizing e with
  | nil => rfl
  | cons a rest ih =>
    rw [holdAgents, List.map_cons, ih, holdAgent_eq]
    rfl

variable (e now) in
/-- The poll's panes as they are published: held, and in triage order. -/
def heldPanes (paneOrder : String → String → Bool) (polled : PaneTable) : PaneTable where
  rows := (e.applyStatusHold now polled.rows).1.insertionSort (byTriage paneOrder)
  nodup := by
    have hperm := (List.perm_insertionSort (byTriage paneOrder) (e.applyStatusHold now polled.rows).1).map
      AgentView.paneId
    exact hperm.nodup_iff.mpr (ids_applyStatusHold polled.rows ▸ polled.nodup)

variable (e now) in
def poll (paneOrder : String → String → Bool) (polled : PaneTable) : Published × StateEngine :=
  let agents := e.heldPanes now paneOrder polled
  let published := publish (e.applyStatusHold now polled.rows).2 agents.rows
  (⟨now, polled, agents, published.1⟩, published.2.removeGone agents.rows)

variable {paneOrder : String → String → Bool} {polled : PaneTable}

theorem find?_heldPanes : (e.heldPanes now paneOrder polled).find? id = (polled.find? id).map fun a =>
      { a with status := heldStatus now (e.prevStatus id) (e.statusHold id) a.status } := by
  let held : PaneTable := ⟨(e.applyStatusHold now polled.rows).1, ids_applyStatusHold polled.rows ▸ polled.nodup⟩
  have hsame : (e.heldPanes now paneOrder polled).find? id = held.find? id := by
    refine Option.ext fun a => ?_
    rw [Table.find?_eq_some_iff, Table.find?_eq_some_iff]
    exact and_congr_left' (List.mem_insertionSort _)
  rw [hsame]
  refine (paneOf_holdAgents polled.rows).trans ?_
  cases hfind : paneOf polled.rows id with
  | none => rw [show polled.find? id = none from hfind]; rfl
  | some a =>
    have hlive : isLive polled.rows id = true := by rw [isLive_eq, hfind]; rfl
    rw [show polled.find? id = some a from hfind]
    simp only [hlive, if_true]

theorem statusOf_heldPanes : (e.heldPanes now paneOrder polled).statusOf id =
    (polled.statusOf id).map (heldStatus now (e.prevStatus id) (e.statusHold id)) := by
  unfold PaneTable.statusOf
  rw [find?_heldPanes, Option.map_map, Option.map_map]
  rfl

/-! ### What a poll publishes -/

variable {t : StatusTransition}

theorem mem_fire {a : AgentView} : t ∈ e.fire a ↔
    t.agent = a ∧ e.prevStatus a.paneId = some t.prev ∧ t.status = a.status ∧ t.prev ≠ t.status := by
  obtain ⟨agent, prev, status⟩ := t
  unfold fire
  cases hprev : e.prevStatus a.paneId with
  | none => simp
  | some last =>
    dsimp only
    split_ifs with hne
    · simp only [List.mem_singleton, StatusTransition.mk.injEq, Option.some.injEq]
      constructor
      · rintro ⟨rfl, rfl, rfl⟩
        exact ⟨rfl, rfl, rfl, hne⟩
      · rintro ⟨rfl, rfl, rfl, -⟩
        exact ⟨rfl, rfl, rfl⟩
    · simp only [List.not_mem_nil, Option.some.injEq, false_iff]
      rintro ⟨-, rfl, rfl, hdiff⟩
      exact hne hdiff

theorem statusHold_publish (agents : List AgentView) : (publish e agents).2.statusHold = e.statusHold := by
  induction agents generalizing e with
  | nil => rfl
  | cons a rest ih => exact ih

theorem prevStatus_publish (h : (agents.map AgentView.paneId).Nodup) :
    (publish e agents).2.prevStatus id = ((paneOf agents id).map AgentView.status).or (e.prevStatus id) := by
  induction agents generalizing e with
  | nil => rfl
  | cons a rest ih =>
    rw [List.map_cons, List.nodup_cons] at h
    rw [publish, ih h.2, paneOf_cons]
    by_cases hid : a.paneId = id
    · subst hid
      rw [paneOf_eq_none rest h.1]
      simp
    · simp [hid, Ne.symm hid]

theorem mem_publish (h : (agents.map AgentView.paneId).Nodup) :
    t ∈ (publish e agents).1 ↔ t.agent ∈ agents ∧ t ∈ e.fire t.agent := by
  induction agents generalizing e with
  | nil => simp [publish]
  | cons a rest ih =>
    rw [List.map_cons, List.nodup_cons] at h
    rw [publish, List.mem_append, ih h.2, List.mem_cons, or_and_right]
    refine or_congr ⟨fun ht => ?_, fun ⟨ha, ht⟩ => ha ▸ ht⟩ (and_congr_right fun hrest => ?_)
    · obtain rfl := (mem_fire.mp ht).1
      exact ⟨rfl, ht⟩
    · have hother : t.agent.paneId ≠ a.paneId := fun hid => h.1 (hid ▸ List.mem_map_of_mem hrest)
      rw [mem_fire, mem_fire]
      simp only [hother, if_false]

theorem ids_publish (agents : List AgentView) :
    ((publish e agents).1.map fun t => t.agent.paneId).Sublist (agents.map AgentView.paneId) := by
  induction agents generalizing e with
  | nil => exact List.Sublist.slnil
  | cons a rest ih =>
    rw [publish, List.map_append, List.map_cons]
    have hown : (e.fire a).map (fun t => t.agent.paneId) = [] ∨
      (e.fire a).map (fun t => t.agent.paneId) = [a.paneId] := by
      unfold fire
      cases e.prevStatus a.paneId with
      | none => exact .inl rfl
      | some prev =>
        dsimp only
        split_ifs
        · exact .inr rfl
        · exact .inl rfl
    obtain hown | hown := hown <;> rw [hown]
    · exact ih.cons a.paneId
    · exact ih.cons_cons a.paneId

theorem prevStatus_poll :
    (e.poll now paneOrder polled).2.prevStatus id = (e.heldPanes now paneOrder polled).statusOf id := by
  have hpanes : (e.heldPanes now paneOrder polled).find? id = paneOf (e.heldPanes now paneOrder polled).rows id := rfl
  simp only [poll, removeGone]
  rw [prevStatus_publish (e.heldPanes now paneOrder polled).nodup, isLive_eq, PaneTable.statusOf, hpanes]
  cases paneOf (e.heldPanes now paneOrder polled).rows id <;> rfl

theorem statusHold_poll : (e.poll now paneOrder polled).2.statusHold id =
    (polled.statusOf id).bind (heldSince now (e.prevStatus id) (e.statusHold id)) := by
  have hheld : (e.applyStatusHold now polled.rows).2.statusHold id =
      (polled.statusOf id).bind (heldSince now (e.prevStatus id) (e.statusHold id)) := by
    have hlive : isLive polled.rows id = (polled.find? id).isSome := isLive_eq polled.rows
    have hpane : paneOf polled.rows id = polled.find? id := rfl
    rw [applyStatusHold, statusHold_holdAgents polled.nodup, hpane, PaneTable.statusOf]
    cases hfind : polled.find? id <;> simp [hlive, hfind]
  have hgone : isLive (e.heldPanes now paneOrder polled).rows id = (polled.statusOf id).isSome := by
    have hpane : paneOf (e.heldPanes now paneOrder polled).rows id =
      (e.heldPanes now paneOrder polled).find? id := rfl
    rw [isLive_eq, hpane, find?_heldPanes, PaneTable.statusOf, Option.isSome_map, Option.isSome_map]
  simp only [poll, removeGone]
  rw [statusHold_publish, hheld, hgone]
  cases polled.statusOf id <;> simp

end StateEngine

/-! ### Every poll -/

/-- The status of a pane at the last successful poll. -/
def lastPublished (past : List Published) (id : String) : Option AgentStatus :=
  past.head?.bind fun last => last.agents.statusOf id

def Published.Rests (p : Published) (id : String) : Prop := ∃ status ∈ p.polled.statusOf id, status ∈ RESTING_STATUS

/-- The pane rested at every poll since `since`, one of them. -/
def RestsSince (past : List Published) (id : String) (since : Int) : Prop :=
  ∃ recent first before, past = recent ++ first :: before ∧ first.time = since ∧ ∀ p ∈ first :: recent, p.Rests id

variable {p : Published} {id : String}

private theorem RestsSince.more {past : List Published} {since : Int} (h : RestsSince past id since)
    (hrests : p.Rests id) : RestsSince (p :: past) id since := by
  obtain ⟨recent, first, before, rfl, htime, hall⟩ := h
  refine ⟨p :: recent, first, before, rfl, htime, fun q hq => ?_⟩
  rcases List.mem_cons.mp hq with rfl | hq
  · exact hall q (List.mem_cons_self ..)
  rcases List.mem_cons.mp hq with rfl | hq
  · exact hrests
  · exact hall q (List.mem_cons_of_mem _ hq)

private theorem RestsSince.single (past : List Published) (hrests : p.Rests id) :
    RestsSince (p :: past) id p.time :=
  ⟨[], p, past, rfl, rfl, fun _ hq => List.mem_singleton.mp hq ▸ hrests⟩

/-- What a poll may publish after the polls before it, newest first. -/
structure Published.Lawful (past : List Published) (p : Published) : Prop where
  /-- A turn is over when the pane has rested at every poll of a full hold. -/
  held : ∀ id, lastPublished past id = some .working → ∀ status ∈ p.agents.statusOf id, status ∈ RESTING_STATUS →
    ∃ since, since + STATUS_HOLD_MS ≤ p.time ∧ RestsSince (p :: past) id since
  atOnce : ∀ id, ∀ status ∈ p.polled.statusOf id, status = .working ∨ status = .blocked →
    p.agents.statusOf id = some status
  first : ∀ id, lastPublished past id = none →
    p.agents.find? id = p.polled.find? id ∧ ∀ t ∈ p.transitions, t.agent.paneId ≠ id
  /-- A transition leads from what was published last to what is published now. -/
  fired : ∀ t ∈ p.transitions, lastPublished past t.agent.paneId = some t.prev ∧
    p.agents.statusOf t.agent.paneId = some t.status ∧ t.prev ≠ t.status
  changed : ∀ id prev status, lastPublished past id = some prev → p.agents.statusOf id = some status → prev ≠ status →
    ∃ t ∈ p.transitions, t.agent.paneId = id ∧ t.prev = prev ∧ t.status = status
  once : (p.transitions.map fun t => t.agent.paneId).Nodup

structure PollWorld where
  engine : StateEngine
  now : Int
  polls : List Published

namespace PollWorld

def start (now : Int) : PollWorld := ⟨{}, now, []⟩

inductive Action
  | poll (polled : PaneTable)
  | failed
  | tick (ms : Nat)

def step (paneOrder : String → String → Bool) (w : PollWorld) : Action → Option PollWorld
  | .poll polled =>
    let r := w.engine.poll w.now paneOrder polled
    some { w with engine := r.2, polls := r.1 :: w.polls }
  | .failed => some w
  | .tick ms => some { w with now := w.now + ms }

/-- The engine knows the last poll's statuses, and a rest that is held back has lasted since its poll. -/
structure Sound (w : PollWorld) : Prop where
  prev : ∀ id, w.engine.prevStatus id = lastPublished w.polls id
  hold : ∀ id, ∀ since ∈ w.engine.statusHold id, RestsSince w.polls id since
  lawful : ∀ recent p past, w.polls = recent ++ p :: past → p.Lawful past

theorem Sound.start (now : Int) : (start now).Sound where
  prev id := rfl
  hold id since h := by cases h
  lawful recent p past h := by cases recent <;> cases h

variable {w : PollWorld} {paneOrder : String → String → Bool}

theorem Sound.poll_lawful (h : w.Sound) (polled : PaneTable) :
    (w.engine.poll w.now paneOrder polled).1.Lawful w.polls := by
  have hnodup := (w.engine.heldPanes w.now paneOrder polled).nodup
  have hprev (id : String) : (w.engine.applyStatusHold w.now polled.rows).2.prevStatus id =
      lastPublished w.polls id :=
    (congrFun (StateEngine.prevStatus_holdAgents polled.rows) id).trans (h.prev id)
  have hstatus (id : String) : (w.engine.poll w.now paneOrder polled).1.agents.statusOf id = (polled.statusOf id).map
      (StateEngine.heldStatus w.now (lastPublished w.polls id) (w.engine.statusHold id)) :=
    h.prev id ▸ StateEngine.statusOf_heldPanes
  have hfired (t : StatusTransition) : t ∈ (w.engine.poll w.now paneOrder polled).1.transitions ↔
      t.agent ∈ (w.engine.heldPanes w.now paneOrder polled).rows ∧
        lastPublished w.polls t.agent.paneId = some t.prev ∧ t.status = t.agent.status ∧ t.prev ≠ t.status := by
    refine (StateEngine.mem_publish hnodup).trans (and_congr_right fun _ => ?_)
    rw [StateEngine.mem_fire, hprev]
    exact and_iff_right rfl
  refine ⟨fun id hworking status hshown hrests => ?_, fun id status hread hnow => ?_, fun id hnew => ⟨?_, ?_⟩,
    fun t ht => ?_, fun id prev status hlast hshown hne => ?_, ?_⟩
  · rw [hstatus, Option.mem_def, Option.map_eq_some_iff] at hshown
    obtain ⟨read, hread, rfl⟩ := hshown
    unfold StateEngine.heldStatus at hrests
    split_ifs at hrests with hheld
    · exact absurd hrests (by decide)
    · cases hhold : w.engine.statusHold id with
      | none => exact absurd ⟨hworking, hrests, by rw [hhold]; rfl⟩ hheld
      | some since =>
        refine ⟨since, ?_, (h.hold id since hhold).more ⟨read, hread, hrests⟩⟩
        by_contra hshort
        refine hheld ⟨hworking, hrests, ?_⟩
        rw [hhold, Option.all_some, decide_eq_true_eq]
        change ¬since + STATUS_HOLD_MS ≤ w.now at hshort
        omega
  · rw [hstatus, show polled.statusOf id = some status from hread, Option.map_some]
    refine congrArg some (if_neg fun hheld => ?_)
    rcases hnow with rfl | rfl <;> exact absurd hheld.2.1 (by decide)
  · change (w.engine.heldPanes w.now paneOrder polled).find? id = polled.find? id
    rw [StateEngine.find?_heldPanes, h.prev, hnew]
    cases polled.find? id <;> rfl
  · intro t ht hid
    rw [hfired, hid, hnew] at ht
    exact absurd ht.2.1 nofun
  · obtain ⟨hagent, hlast, hnow, hne⟩ := (hfired t).mp ht
    refine ⟨hlast, ?_, hne⟩
    change ((w.engine.heldPanes w.now paneOrder polled).find? t.agent.paneId).map _ = _
    rw [Table.find?_key hagent, hnow]
    rfl
  · obtain ⟨a, ha, rfl⟩ := Option.map_eq_some_iff.mp hshown
    have hid : a.paneId = id := Table.key_of_find? ha
    refine ⟨⟨a, prev, a.status⟩, (hfired _).mpr ⟨Table.mem_of_find? ha, ?_, rfl, hne⟩, hid, rfl, rfl⟩
    exact hid ▸ hlast
  · exact hnodup.sublist (StateEngine.ids_publish _)

theorem Sound.poll_hold (h : w.Sound) (polled : PaneTable) (id : String) :
    ∀ since ∈ (w.engine.poll w.now paneOrder polled).2.statusHold id,
      RestsSince ((w.engine.poll w.now paneOrder polled).1 :: w.polls) id since := by
  intro since hsince
  rw [StateEngine.statusHold_poll, Option.mem_def, Option.bind_eq_some_iff] at hsince
  obtain ⟨status, hstatus, hsince⟩ := hsince
  unfold StateEngine.heldSince at hsince
  split_ifs at hsince with hrests
  have hrests' : (w.engine.poll w.now paneOrder polled).1.Rests id := ⟨status, hstatus, hrests.2⟩
  have hkept := (Option.filter_eq_some_iff.mp hsince).1
  cases hhold : w.engine.statusHold id with
  | none =>
    rw [hhold] at hkept
    cases hkept
    exact RestsSince.single w.polls hrests'
  | some old =>
    rw [hhold] at hkept
    cases hkept
    exact (h.hold id old hhold).more hrests'

theorem Sound.step (h : w.Sound) {action : Action} {next : PollWorld} (hstep : w.step paneOrder action = some next) :
    next.Sound := by
  cases action with
  | poll polled =>
    cases hstep
    refine ⟨fun id => StateEngine.prevStatus_poll, h.poll_hold polled, fun recent p past hpolls => ?_⟩
    cases recent with
    | nil =>
      obtain ⟨rfl, rfl⟩ := List.cons.inj hpolls
      exact h.poll_lawful polled
    | cons newest recent => exact h.lawful recent p past (List.cons.inj hpolls).2
  | failed =>
    cases hstep
    exact h
  | tick ms =>
    cases hstep
    exact ⟨h.prev, h.hold, h.lawful⟩

/-- Every poll of every run: a finished turn is published after a full hold of rest only, work and questions at once,
a first sighting as it is; and the transitions of a pane are the changes of what is published of it. -/
theorem published_lawful {now : Int} (hrun : Runs.Run (step paneOrder) (fun _ _ => True) (start now) w)
    (recent : List Published) (p : Published) (past : List Published) (h : w.polls = recent ++ p :: past) :
    p.Lawful past := by
  have hsound : w.Sound :=
    hrun.invariant (P := Sound) (fun _ _ _ hsound _ hstep => hsound.step hstep) (Sound.start now)
  exact hsound.lawful recent p past h

private def onePane (status : AgentStatus) : PaneTable :=
  ⟨[{ paneId := "p", workspaceId := "w", workspaceLabel := "", workspaceNumber := 1, agent := "claude", status }],
    List.nodup_singleton _⟩

/-- A pane rests for three seconds, and its turn is over. -/
theorem published_lawful_rested : ∃ (p : Published) (past : List Published), p.time = 3000 ∧
    p.agents.statusOf "p" = some .done ∧
    p.transitions.map StatusTransition.prev = [.working] ∧ p.Lawful past := by
  obtain ⟨w, hrun, hp⟩ := Runs.exists_run_of_exec (show (Runs.exec (step fun _ _ => true) (fun _ _ => True) (start 0)
      [.poll (onePane .working), .poll (onePane .idle), .tick 3000, .failed, .poll (onePane .done)]).any
      (fun w => w.polls.head?.any fun p => p.time = 3000 && p.agents.statusOf "p" = some .done &&
        p.transitions.map StatusTransition.prev = [.working]) = true by decide +kernel)
  obtain ⟨p, hhead, hshown⟩ := (Option.any_eq_true _ _).mp hp
  obtain ⟨past, hpolls⟩ := List.head?_eq_some_iff.mp hhead
  simp only [Bool.and_eq_true, decide_eq_true_eq] at hshown
  exact ⟨p, past, hshown.1.1, hshown.1.2, hshown.2, published_lawful hrun [] p past hpolls⟩

end PollWorld

end Sightr
