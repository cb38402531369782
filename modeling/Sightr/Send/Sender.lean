import Sightr.Herd.Diff
import Sightr.Panes.Queue
import Sightr.Send.Guarded

/-!
# The guarded sender

`createGuardedSender` of `bridge/guarded-send-route.ts`. A call looks its pane up in the engine's view, takes
the composer kit of the pane's harness and waits for the pane's queue turn; in the turn it works on the pane's
id with that kit. The engine polls Herdr at any time, and other writers wait in the same queue. What a turn
does is known by its log: a send's is the guard's over answers the pane gives as it likes, a `withPane`
function does what it likes.
-/

namespace Sightr

/-! ### The calls -/

structure GuardedSendTarget where
  paneId : String
  terminalId : Option String := none
  deriving DecidableEq

private def filled (text : Option String) : Option String := text.filter (· ≠ "")

/-- The pane of a target; one with another terminal (a reused pane) is not it. -/
def findPane (snap : EngineSnapshot) (target : GuardedSendTarget) : Option AgentView :=
  match (snap.agents.find? (·.paneId = target.paneId)).or (snap.shellPanes.find? (·.paneId = target.paneId)) with
  | none => none
  | some pane =>
    if (filled target.terminalId).isSome ∧ (filled pane.terminalId).isSome ∧
      pane.terminalId ≠ target.terminalId then none
    else some pane

/-- Verification reads, and the wait between two of them. -/
def BRIDGE_POLL_ATTEMPTS : Nat := 28
def BRIDGE_POLL_DELAY_MS : Nat := 100

/-- The harnesses with a composer kit, and the screens they read. -/
structure SenderDeps (Lines : Type) where
  engine : Engine Lines
  kits : String → Option (ComposerKit Lines)

structure PaneAnswers where
  read : List SendEvent → Option String
  type : List SendEvent → WriteResult
  submit : List SendEvent → WriteResult
  oneShot : List SendEvent → WriteResult
  sweep : List SendEvent → Bool

def PaneAnswers.io (answers : PaneAnswers) : GuardedSendIo where
  read := answers.read
  type := answers.type
  submit := answers.submit
  oneShot := answers.oneShot
  pollAttempts := BRIDGE_POLL_ATTEMPTS
  pollDelayMs := BRIDGE_POLL_DELAY_MS

/-- The keys that clear a stranded draft: none for an empty one. -/
def PaneAnswers.onComposerSeen (answers : PaneAnswers) (seen : ComposerSeen) (log : List SendEvent) :
    ComposerPrepResult :=
  if (seen.draft.filter fun draft => JsText.trim draft.toList ≠ []).isNone then .ok false
  else if answers.sweep log then .ok true
  else .failed "Couldn't clear the terminal input — nothing was typed."

inductive SenderJob
  /-- `send`, with its text, its `force` and the pane's answers. -/
  | send (text : String) (force : Bool) (answers : PaneAnswers)
  /-- `withPane`, with what its function does: reads and presses. -/
  | withPane (acts : List SendEvent)
  | composerReady (screen : Option String)

section

variable {Lines : Type} (deps : SenderDeps Lines)

def kitOf (pane : AgentView) : Option (ComposerKit Lines) := if pane.shell then none else deps.kits pane.agent

def kitName (pane : AgentView) : Option String := if (kitOf deps pane).isSome then some pane.agent else none

def SenderJob.acts (pane : AgentView) : SenderJob → List SendEvent
  | send text force answers =>
    (runGuardedSend deps.engine answers.io { text, force, onComposerSeen := some answers.onComposerSeen }
      (kitOf deps pane) []).2
  | withPane acts => acts
  | composerReady screen =>
    -- Without a test for the composer there is no turn.
    if ((kitOf deps pane).bind (·.composerReady)).isSome then [.read screen] else []

/-- A `composerReady` that the kit cannot answer needs no turn. -/
def SenderJob.waits (pane : AgentView) : SenderJob → Bool
  | composerReady _ => ((kitOf deps pane).bind (·.composerReady)).isSome
  | _ => true

end

structure SenderCall where
  target : GuardedSendTarget
  job : SenderJob
  pane : AgentView
  ticket : Nat
  began : Option EngineSnapshot
  todo : List SendEvent

structure SenderWorld where
  engine : EngineSnapshot
  queue : PaneQueue
  calls : List SenderCall
  /-- The targets of the calls that were answered `no-pane`. -/
  noPane : List GuardedSendTarget
  log : List (Nat × SendEvent)

namespace SenderWorld

def start (engine : EngineSnapshot) : SenderWorld := ⟨engine, .empty, [], [], []⟩

inductive Action
  | call (target : GuardedSendTarget) (job : SenderJob)
  | other (paneId : String)
  | poll (snap : EngineSnapshot)
  /-- A timeout, a promise job or the end of a function. -/
  | queue (action : PaneQueue.Action)
  | act (ticket : Nat)

section

variable {Lines : Type} (deps : SenderDeps Lines)

variable (w : SenderWorld)

def begin (ticket : Nat) : SenderWorld :=
  { w with calls := w.calls.map fun c => if c.ticket = ticket then { c with began := some w.engine } else c }

def step (w : SenderWorld) : Action → Option SenderWorld
  | .call target job =>
    match findPane w.engine target with
    | none => some { w with noPane := w.noPane ++ [target] }
    | some pane =>
      if job.waits deps pane then
        (w.queue.step (.run pane.paneId)).map fun queue =>
          { w with
            queue
            calls := w.calls ++
              [{ target, job, pane, ticket := w.queue.calls.length, began := none, todo := job.acts deps pane }] }
      else some w
  | .other paneId => (w.queue.step (.run paneId)).map fun queue => { w with queue }
  | .poll snap => some { w with engine := snap }
  | .queue (.run _) => none
  | .queue (.start ticket) => (w.queue.step (.start ticket)).map fun queue => { w with queue }.begin ticket
  | .queue (.finish ticket threw) =>
    -- A turn ends when it has nothing left to do.
    if ∃ c ∈ w.calls, c.ticket = ticket ∧ c.todo ≠ [] then none
    else (w.queue.step (.finish ticket threw)).map fun queue => { w with queue }
  | .queue action => (w.queue.step action).map fun queue => { w with queue }
  | .act ticket =>
    match w.calls.find? (·.ticket = ticket), w.queue.calls[ticket]? with
    | some { todo := event :: rest, .. }, some { phase := .running, .. } =>
      some { w with
        calls := w.calls.map fun c => if c.ticket = ticket then { c with todo := rest } else c
        log := w.log ++ [(ticket, event)] }
    | _, _ => none

/-- The engine shows the target's pane, with its terminal or none, and with the harness whose kit the call uses. -/
def Shows (snap : EngineSnapshot) (c : SenderCall) : Prop :=
  ∃ pane, findPane snap c.target = some pane ∧ kitName deps pane = kitName deps c.pane

/-- The call has not had its turn yet, and may get it. -/
def Waits (c : SenderCall) : Prop := ∃ q, w.queue.calls[c.ticket]? = some q ∧ q.phase.pending = true

/-- A poll still shows the pane of every call that waits for its turn. -/
def KeepsWaiting : Action → Prop
  | .poll snap => ∀ c ∈ w.calls, w.Waits c → Shows deps snap c
  | _ => True

/-- What a turn does, it does on its call's own target with its own kit. -/
def OnTarget : Prop :=
  ∀ ticket event, (ticket, event) ∈ w.log →
    ∃ c ∈ w.calls, c.ticket = ticket ∧ ∃ snap, c.began = some snap ∧ Shows deps snap c

end

variable {Lines : Type} {deps : SenderDeps Lines} {w w' : SenderWorld}

structure Sound (deps : SenderDeps Lines) (w : SenderWorld) : Prop where
  nodup : (w.calls.map (·.ticket)).Nodup
  issued : ∀ c ∈ w.calls, c.ticket < w.queue.calls.length
  /-- A call that waits would find its pane again. -/
  waiting : ∀ c ∈ w.calls, w.Waits c → Shows deps w.engine c
  began : ∀ c ∈ w.calls, ∀ snap, c.began = some snap → Shows deps snap c
  running : ∀ c ∈ w.calls, ∀ q, w.queue.calls[c.ticket]? = some q → q.phase = .running → c.began.isSome
  log : ∀ ticket event, (ticket, event) ∈ w.log → ∃ c ∈ w.calls, c.ticket = ticket ∧ c.began.isSome

theorem sound_start (engine : EngineSnapshot) : (start engine).Sound deps where
  nodup := List.nodup_nil
  issued := by simp [start]
  waiting := by simp [start]
  began := by simp [start]
  running := by simp [start]
  log := by simp [start]

section

variable (h : w.Sound deps)
include h

theorem Sound.onTarget : w.OnTarget deps := by
  intro ticket event hmem
  obtain ⟨c, hc, hticket, hbegan⟩ := h.log ticket event hmem
  obtain ⟨snap, hsnap⟩ := Option.isSome_iff_exists.mp hbegan
  exact ⟨c, hc, hticket, snap, hsnap, h.began c hc snap hsnap⟩

private theorem Sound.queue {a : PaneQueue.Action} {queue : PaneQueue}
    (hstep : w.queue.step a = some queue) (hstart : ∀ i, a ≠ .start i) :
    ({ w with queue } : SenderWorld).Sound deps := { h with
  issued := fun c hc => Nat.lt_of_lt_of_le (h.issued c hc) (PaneQueue.length_of_step hstep)
  waiting := fun c hc => by
    rintro ⟨q, hq, hphase⟩
    obtain ⟨old, hold, -, hpending⟩ | ⟨hnew, -⟩ := PaneQueue.phase_of_step hstep hq
    · exact h.waiting c hc ⟨old, hold, hpending hphase⟩
    · exact absurd hnew (Nat.ne_of_lt (h.issued c hc))
  running := fun c hc q hq hphase => by
    obtain ⟨old, hold, hrun, -⟩ | ⟨hnew, -⟩ := PaneQueue.phase_of_step hstep hq
    · obtain hrunning | hstarts := hrun hphase
      · exact h.running c hc old hold hrunning
      · exact absurd hstarts (hstart _)
    · exact absurd hnew (Nat.ne_of_lt (h.issued c hc)) }

private theorem Sound.begin {ticket : Nat} {queue : PaneQueue}
    (hstep : w.queue.step (.start ticket) = some queue) : (({ w with queue } :
      SenderWorld).begin ticket).Sound deps := by
  obtain ⟨granted, hgranted, hphase⟩ := PaneQueue.granted_of_start hstep
  have hback : ∀ d ∈ (({ w with queue } : SenderWorld).begin ticket).calls, ∃ c ∈ w.calls,
      d = if c.ticket = ticket then { c with began := some w.engine } else c := by
    intro d hd
    obtain ⟨c, hc, rfl⟩ := List.mem_map.mp hd
    exact ⟨c, hc, rfl⟩
  have hsame (c : SenderCall) :
      (if c.ticket = ticket then { c with began := some w.engine } else c).ticket = c.ticket := by
    split_ifs <;> rfl
  have hshows (c : SenderCall) (snap : EngineSnapshot) :
      Shows deps snap (if c.ticket = ticket then { c with began := some w.engine } else c) ↔ Shows deps snap c := by
    split_ifs <;> rfl
  constructor
  · have htickets : (w.calls.map fun c => if c.ticket = ticket then { c with began := some w.engine } else c).map
        SenderCall.ticket = w.calls.map SenderCall.ticket := by
      rw [List.map_map]
      exact List.map_congr_left fun c _ => hsame c
    exact htickets.symm ▸ h.nodup
  · intro d hd
    obtain ⟨c, hc, rfl⟩ := hback d hd
    rw [hsame]
    exact Nat.lt_of_lt_of_le (h.issued c hc) (PaneQueue.length_of_step hstep)
  · intro d hd
    obtain ⟨c, hc, rfl⟩ := hback d hd
    rintro ⟨q, hq, hpending⟩
    rw [hsame] at hq
    rw [hshows]
    obtain ⟨old, hold, -, hwas⟩ | ⟨hnew, -⟩ := PaneQueue.phase_of_step hstep hq
    · exact h.waiting c hc ⟨old, hold, hwas hpending⟩
    · exact absurd hnew (Nat.ne_of_lt (h.issued c hc))
  · intro d hd snap hsnap
    obtain ⟨c, hc, rfl⟩ := hback d hd
    rw [hshows]
    split_ifs at hsnap with hticket
    · cases hsnap
      exact h.waiting c hc ⟨granted, hticket ▸ hgranted, by rw [hphase]; rfl⟩
    · exact h.began c hc snap hsnap
  · intro d hd q hq hrunning
    obtain ⟨c, hc, rfl⟩ := hback d hd
    rw [hsame] at hq
    split_ifs with hticket
    · rfl
    · obtain ⟨old, hold, hrun, -⟩ | ⟨hnew, -⟩ := PaneQueue.phase_of_step hstep hq
      · obtain hold' | hstarts := hrun hrunning
        · exact h.running c hc old hold hold'
        · cases hstarts
          exact absurd rfl hticket
      · exact absurd hnew (Nat.ne_of_lt (h.issued c hc))
  · intro t event hmem
    obtain ⟨c, hc, hticket, hbegan⟩ := h.log t event hmem
    refine ⟨_, List.mem_map_of_mem hc, (hsame c).trans hticket, ?_⟩
    split_ifs
    · rfl
    · exact hbegan

private theorem Sound.join {target : GuardedSendTarget} {job : SenderJob} {pane : AgentView}
    {queue : PaneQueue} (hfind : findPane w.engine target = some pane)
    (hstep : w.queue.step (.run pane.paneId) = some queue) :
    ({ w with
      queue
      calls := w.calls ++
        [{ target, job, pane, ticket := w.queue.calls.length, began := none, todo := job.acts deps pane }] } :
        SenderWorld).Sound deps := by
  have hqueue := h.queue hstep (fun i hstart => (by cases hstart))
  have hlength : queue.calls.length = w.queue.calls.length + 1 := by
    cases hstep
    simp
  constructor
  · change (List.map (·.ticket) (w.calls ++ [_])).Nodup
    rw [List.map_append]
    refine List.nodup_append.mpr ⟨h.nodup, List.nodup_singleton _, fun a ha b hb hab => ?_⟩
    obtain ⟨c, hc, rfl⟩ := List.mem_map.mp ha
    rw [List.mem_singleton.mp hb] at hab
    exact absurd hab (Nat.ne_of_lt (h.issued c hc))
  · intro c hc
    rcases List.mem_append.mp hc with hc | hc
    · exact hqueue.issued c hc
    · rw [List.mem_singleton.mp hc]
      change w.queue.calls.length < queue.calls.length
      omega
  · intro c hc hwaits
    rcases List.mem_append.mp hc with hc | hc
    · exact hqueue.waiting c hc hwaits
    · rw [List.mem_singleton.mp hc]
      exact ⟨pane, hfind, rfl⟩
  · intro c hc snap hsnap
    rcases List.mem_append.mp hc with hc | hc
    · exact h.began c hc snap hsnap
    · rw [List.mem_singleton.mp hc] at hsnap
      cases hsnap
  · intro c hc q hq hrunning
    rcases List.mem_append.mp hc with hc | hc
    · exact hqueue.running c hc q hq hrunning
    · rw [List.mem_singleton.mp hc] at hq
      obtain ⟨old, hold, -⟩ | ⟨-, -, hphase⟩ := PaneQueue.phase_of_step hstep hq
      · exact absurd (List.getElem?_eq_some_iff.mp hold).1 (Nat.lt_irrefl _)
      · rw [hphase] at hrunning
        cases hrunning
  · intro t event hmem
    obtain ⟨c, hc, hrest⟩ := h.log t event hmem
    exact ⟨c, List.mem_append_left _ hc, hrest⟩

private theorem Sound.act {ticket : Nat} {event : SendEvent} {rest : List SendEvent} {c : SenderCall}
    {q : QueueCall} (hc : c ∈ w.calls) (hticket : c.ticket = ticket) (hq : w.queue.calls[ticket]? = some q)
    (hrunning : q.phase = .running) :
    ({ w with
      calls := w.calls.map fun c => if c.ticket = ticket then { c with todo := rest } else c
      log := w.log ++ [(ticket, event)] } : SenderWorld).Sound deps := by
  have hsame (c : SenderCall) : (if c.ticket = ticket then { c with todo := rest } else c).ticket = c.ticket ∧
      (if c.ticket = ticket then { c with todo := rest } else c).began = c.began := by
    split_ifs <;> exact ⟨rfl, rfl⟩
  have hshows (c : SenderCall) (snap : EngineSnapshot) :
      Shows deps snap (if c.ticket = ticket then { c with todo := rest } else c) ↔ Shows deps snap c := by
    split_ifs <;> rfl
  constructor
  · have htickets : (w.calls.map fun c => if c.ticket = ticket then { c with todo := rest } else c).map
        SenderCall.ticket = w.calls.map SenderCall.ticket := by
      rw [List.map_map]
      exact List.map_congr_left fun c _ => (hsame c).1
    exact htickets.symm ▸ h.nodup
  · intro d hd
    obtain ⟨c, hc, rfl⟩ := List.mem_map.mp hd
    rw [(hsame c).1]
    exact h.issued c hc
  · intro d hd
    obtain ⟨c, hc, rfl⟩ := List.mem_map.mp hd
    rintro ⟨q, hq, hpending⟩
    rw [(hsame c).1] at hq
    exact (hshows c _).mpr (h.waiting c hc ⟨q, hq, hpending⟩)
  · intro d hd snap hsnap
    obtain ⟨c, hc, rfl⟩ := List.mem_map.mp hd
    rw [(hsame c).2] at hsnap
    exact (hshows c _).mpr (h.began c hc snap hsnap)
  · intro d hd q hq hphase
    obtain ⟨c, hc, rfl⟩ := List.mem_map.mp hd
    rw [(hsame c).1] at hq
    rw [(hsame c).2]
    exact h.running c hc q hq hphase
  · intro t e hmem
    have hkept {d : SenderCall} (hd : d ∈ w.calls) (hbegan : d.began.isSome) :
        ∃ d' ∈ w.calls.map fun c => if c.ticket = ticket then { c with todo := rest } else c,
          d'.ticket = d.ticket ∧ d'.began.isSome :=
      ⟨_, List.mem_map_of_mem hd, (hsame d).1, by rw [(hsame d).2]; exact hbegan⟩
    rcases List.mem_append.mp hmem with hmem | hmem
    · obtain ⟨d, hd, rfl, hbegan⟩ := h.log t e hmem
      exact hkept hd hbegan
    · obtain ⟨rfl, -⟩ := Prod.mk.inj (List.mem_singleton.mp hmem)
      exact hticket ▸ hkept hc (h.running c hc q (hticket ▸ hq) hrunning)

theorem Sound.step {a : Action} (hkeeps : w.KeepsWaiting deps a) (hstep : w.step deps a = some w') :
    w'.Sound deps := by
  cases a with
  | call target job =>
    simp only [SenderWorld.step] at hstep
    split at hstep
    · cases hstep
      exact ⟨h.nodup, h.issued, h.waiting, h.began, h.running, h.log⟩
    · rename_i pane hfind
      split_ifs at hstep
      · obtain ⟨queue, hqueue, rfl⟩ := Option.map_eq_some_iff.mp hstep
        exact h.join hfind hqueue
      · cases hstep
        exact h
  | other paneId =>
    simp only [SenderWorld.step] at hstep
    obtain ⟨queue, hqueue, rfl⟩ := Option.map_eq_some_iff.mp hstep
    exact h.queue hqueue fun i hstart => (by cases hstart)
  | poll snap =>
    cases hstep
    exact ⟨h.nodup, h.issued, fun c hc hwaits => hkeeps c hc hwaits, h.began, h.running, h.log⟩
  | queue action =>
    cases action with
    | run key => cases hstep
    | start ticket =>
      obtain ⟨queue, hqueue, rfl⟩ := Option.map_eq_some_iff.mp hstep
      exact h.begin hqueue
    | finish ticket threw =>
      simp only [SenderWorld.step] at hstep
      split_ifs at hstep
      obtain ⟨queue, hqueue, rfl⟩ := Option.map_eq_some_iff.mp hstep
      exact h.queue hqueue fun i hstart => (by cases hstart)
    | timeout ticket | grant ticket | refuse ticket | settle ticket | sweep ticket =>
      obtain ⟨queue, hqueue, rfl⟩ := Option.map_eq_some_iff.mp hstep
      exact h.queue hqueue fun i hstart => (by cases hstart)
  | act ticket =>
    simp only [SenderWorld.step] at hstep
    split at hstep
    · rename_i event rest _ _ hfind hcall
      cases hstep
      exact h.act (List.mem_of_find?_eq_some hfind) (by simpa using List.find?_some hfind) hcall rfl
    · cases hstep

end

/-- In every run in which each poll still shows the panes that calls wait for, whatever a turn reads, types or
presses, its call's target was there when the turn began, with its terminal or none, and with the harness of
the kit it uses. -/
theorem acts_on_target {engine : EngineSnapshot}
    (hrun : Runs.Run (SenderWorld.step deps) (SenderWorld.KeepsWaiting deps) (start engine) w) :
    w.OnTarget deps ∧ (w.calls.map (·.ticket)).Nodup := by
  have hsound : w.Sound deps := hrun.invariant (P := Sound deps)
    (fun _ _ _ h hkeeps hstep => h.step hkeeps hstep) (sound_start engine)
  exact ⟨hsound.onTarget, hsound.nodup⟩

def boxDeps : SenderDeps String := ⟨boxEngine, fun agent => if agent = "claude" then some boxKit else none⟩

/-- A view with one pane, of Claude in the given terminal. -/
def onePane (terminalId : String) : EngineSnapshot where
  agents := [{
    paneId := "p1", terminalId := some terminalId, workspaceId := "w1", workspaceLabel := "ws", workspaceNumber := 1
    agent := "claude", status := .idle }]
  shellPanes := []
  workspaces := []

/-- A pane with an empty box, which shows what is typed until it is submitted. -/
def willing : PaneAnswers where
  read := fun log => some (if log.any (·.isType) ∧ !log.any (·.isSubmit) then "run the tests" else "")
  type := fun _ => .ok
  submit := fun _ => .ok
  oneShot := fun _ => .ok
  sweep := fun _ => true

def sendTests : Action := .call ⟨"p1", some "a"⟩ (.send "run the tests" false willing)

def Action.isPoll : Action → Bool
  | .poll _ => true
  | _ => false

def sendBehind : Option SenderWorld :=
  Runs.exec (step boxDeps) (fun _ a => a.isPoll = false) (start (onePane "a"))
    [.call ⟨"p1", some "a"⟩ (.withPane []), .queue (.grant 0), .queue (.start 0), sendTests,
      .queue (.finish 0 false), .queue (.settle 0), .queue (.grant 1), .queue (.start 1), .act 1, .act 1]

theorem acts_on_target_behind :
    ∃ w : SenderWorld, w.log.map Prod.fst = [1, 1] ∧ w.OnTarget boxDeps ∧ (w.calls.map (·.ticket)).Nodup := by
  have hrun := Runs.run_of_exec (Option.some_get (show sendBehind.isSome by decide +kernel)).symm
  exact ⟨sendBehind.get (by decide +kernel), by decide +kernel, acts_on_target
      (hrun.imp fun m a hpoll => by cases a <;> trivial)⟩

/-- The same, and while the send waits the pane is given to another terminal. -/
def sendReused : Option SenderWorld :=
  Runs.exec (step boxDeps) (fun _ _ => True) (start (onePane "a"))
    [.call ⟨"p1", some "a"⟩ (.withPane []), .queue (.grant 0), .queue (.start 0), sendTests, .poll (onePane "b"),
      .queue (.finish 0 false), .queue (.settle 0), .queue (.grant 1), .queue (.start 1), .act 1, .act 1, .act 1]

/-- The send sweeps and types into the terminal that has the pane now. -/
theorem types_into_reused : ∃ w, Runs.Run (step boxDeps) (fun _ _ => True) (start (onePane "a")) w ∧
    (1, .type "run the tests" false) ∈ w.log ∧ ¬w.OnTarget boxDeps := by
  refine ⟨sendReused.get (by decide +kernel), Runs.run_of_exec (Option.some_get
      (show sendReused.isSome by decide +kernel)).symm, ?_, ?_⟩
  · decide +kernel
  · intro h
    obtain ⟨c, hc, hticket, snap, hbegan, pane, hfind, -⟩ := h 1 (.type "run the tests" false) (by decide +kernel)
    have hcalls : (sendReused.get (by decide +kernel)).calls.map (fun c => (c.ticket, c.target, c.began)) =
        [(0, ⟨"p1", some "a"⟩, some (onePane "a")), (1, ⟨"p1", some "a"⟩, some (onePane "b"))] := by decide +kernel
    have hmem : (c.ticket, c.target, c.began) ∈ [(0, ⟨"p1", some "a"⟩, some (onePane "a")),
        (1, (⟨"p1", some "a"⟩ : GuardedSendTarget), some (onePane "b"))] := hcalls ▸ List.mem_map_of_mem hc
    rw [hticket, hbegan] at hmem
    have hsecond : c.target = ⟨"p1", some "a"⟩ ∧ snap = onePane "b" := by simpa using hmem
    rw [hsecond.1, hsecond.2] at hfind
    have hnone : findPane (onePane "b") ⟨"p1", some "a"⟩ = none := by decide +kernel
    rw [hnone] at hfind
    cases hfind

end SenderWorld

end Sightr
