import Sightr.Client.Retry

/-!
# The first message of a new thread

`web2/src/state/draft-thread.ts`, from the created thread on: `sendFirstMessage` uploads the attachments to
the new pane and posts one `message.dispatch` under the id the start was given. Both retries send it again
under that id, and a reload of the page keeps the start but not the files. A request that nobody waits for any
more may still reach the bridge.
-/

namespace Sightr

namespace Client

open Keyed (Table)

/-- What a start is given once: its thread and the message's id and text. -/
structure DraftStart where
  dispatchCommandId : String
  threadId : String
  firstMessage : String

inductive MessageState
  | none
  | pending
  | sent
  | failed
  deriving DecidableEq

inductive SendingFirst
  /-- The attachments uploaded so far, and the names of the files to upload still. -/
  | uploading (attachments : List ChatAttachment) (files : List String)
  | posting (attachments : List ChatAttachment) (second : Bool)
  deriving DecidableEq

/-- The page's start, and what the bridge has of its message. -/
structure FirstMessage (H : Type) where
  messageState : MessageState
  attachments : List String
  sending : Option SendingFirst
  /-- Requests nobody waits for, that may still arrive. -/
  strays : List DispatchBody
  receipts : Receipts H
  /-- The dispatches the bridge has committed for the start. -/
  commits : List DispatchBody

def DraftStart.body (start : DraftStart) (attachments : List ChatAttachment) : DispatchBody :=
  { threadId := start.threadId, text := start.firstMessage, mode := .queue, attachments }

def DraftStart.request (start : DraftStart) (body : DispatchBody) : CommandRequest DispatchBody :=
  ⟨start.dispatchCommandId, "message.dispatch", body⟩

def SendingFirst.next (attachments : List ChatAttachment) : List String → SendingFirst
  | [] => posting attachments false
  | file :: files => uploading attachments (file :: files)

namespace FirstMessage

variable {H : Type} [DecidableEq H] (hash : DispatchBody → H) (start : DraftStart)

def created (attachments : List String) (receipts : Receipts H) : FirstMessage H :=
  ⟨.none, attachments, none, [], receipts, []⟩

inductive Action
  | advance
  | uploaded (path : String)
  | uploadFailed
  | post (outcome : CommandOutcome) (fate : PostFate)
  | arrive (body : DispatchBody) (outcome : CommandOutcome)
  | reload
  /-- The retries; the thread is there, or the start has failed meanwhile. -/
  | retryFirstMessage (ready : Bool)
  | retryWithoutAttachments (ready : Bool)

variable (w : FirstMessage H)

def deliver (body : DispatchBody) (outcome : CommandOutcome) : FirstMessage H × CommandReply :=
  let (receipts, reply) := executeCommand hash w.receipts (start.request body) outcome
  let commits := if commitsCommand w.receipts (start.request body) outcome then w.commits ++ [body] else w.commits
  ({ w with receipts, commits }, reply)

def posted (body : DispatchBody) (outcome : CommandOutcome) (fate : PostFate) : FirstMessage H × CommandReply :=
  if fate.arrived then w.deliver hash start body outcome
  else ({ w with strays := w.strays ++ [body] }, .refused "")

/-- The end of `sendFirstMessage`'s POST, or of its first one. -/
def settle (attachments : List ChatAttachment) : SendResult → FirstMessage H
  | .again => { w with sending := some (.posting attachments true) }
  | .resolved _ => { w with sending := none, messageState := .sent }
  | .thrown _ => { w with sending := none, messageState := .failed }

/-- `advance` with the thread there: the message is sent unless it was. -/
def advance : FirstMessage H :=
  if w.messageState = .none ∧ w.sending.isNone then
    { w with messageState := .pending, sending := some (.next [] w.attachments) }
  else w

def retryFirstMessage (ready : Bool) : FirstMessage H :=
  let w := { w with messageState := .none }
  if ready then w.advance else w

def reload : FirstMessage H :=
  { w with
    messageState := if w.messageState = .pending then .failed else w.messageState
    attachments := []
    sending := none
    strays :=
      match w.sending with
      | some (.posting attachments _) => w.strays ++ [start.body attachments]
      | _ => w.strays }

def step : Action → Option (FirstMessage H)
  | .advance => some w.advance
  | .uploaded path =>
    match w.sending with
    | some (.uploading attachments (file :: files)) =>
      let name := if file = "" then "attachment" else file
      some { w with sending := some (.next (attachments ++ [{ path, name }]) files) }
    | _ => none
  | .uploadFailed =>
    match w.sending with
    | some (.uploading _ _) => some { w with sending := none, messageState := .failed }
    | _ => none
  | .post outcome fate =>
    match w.sending with
    | some (.posting attachments second) =>
      let (w, reply) := w.posted hash start (start.body attachments) outcome fate
      some (w.settle attachments (sendResult second reply fate))
    | _ => none
  | .arrive body outcome =>
    if body ∈ w.strays then some ({ w with strays := w.strays.erase body }.deliver hash start body outcome).1
      else none
  | .reload => some (w.reload start)
  | .retryFirstMessage ready => some (w.retryFirstMessage ready)
  | .retryWithoutAttachments ready => some ({ w with attachments := [] }.retryFirstMessage ready)

/-! ### What holds in every run -/

/-- The bridge's part: one commit at most, with a receipt of its body. -/
structure Committed (w : FirstMessage H) : Prop where
  once : w.commits.length ≤ 1
  kept : ∀ body ∈ w.commits, ∃ r, w.receipts.find? start.dispatchCommandId = some r ∧ r.refusal = none ∧
    r.type = "message.dispatch" ∧ r.hash = hash body
  accepted : Accepted w.receipts start.dispatchCommandId → w.commits ≠ []

structure Sound (w : FirstMessage H) : Prop extends Committed hash start w where
  sent : w.messageState = .sent → w.commits ≠ []

variable {hash} {start} {w w' : FirstMessage H} {body : DispatchBody} {outcome : CommandOutcome}

omit [DecidableEq H] in
theorem sound_created (attachments : List String) {receipts : Receipts H}
    (hfresh : receipts.find? start.dispatchCommandId = none) : (created attachments receipts).Sound hash start where
  once := Nat.zero_le 1
  kept body h := by cases h
  accepted h := by
    obtain ⟨r, hr, -⟩ := h
    rw [show (created attachments receipts).receipts = receipts from rfl, hfresh] at hr
    cases hr
  sent h := by cases h

theorem deliver_commits : (w.deliver hash start body outcome).1.commits =
    if commitsCommand w.receipts (start.request body) outcome then w.commits ++ [body] else w.commits := rfl

theorem commits_deliver (h : w.commits ≠ []) : (w.deliver hash start body outcome).1.commits ≠ [] := by
  rw [deliver_commits]
  split_ifs
  · exact List.append_ne_nil_of_right_ne_nil _ (List.cons_ne_nil _ _)
  · exact h

theorem Committed.deliver (h : w.Committed hash start) :
    (w.deliver hash start body outcome).1.Committed hash start := by
  by_cases hcommits : commitsCommand w.receipts (start.request body) outcome = true
  · obtain ⟨hnone, r, hr, hrefusal, htype, hhash⟩ := find?_of_commitsCommand hash hcommits
    have hempty : w.commits = [] := by
      refine List.eq_nil_iff_forall_not_mem.mpr fun c hc => ?_
      obtain ⟨r', hr', -⟩ := h.kept c hc
      rw [show w.receipts.find? start.dispatchCommandId = none from hnone] at hr'
      cases hr'
    have hnew : (w.deliver hash start body outcome).1.commits = [body] := by
      rw [deliver_commits, if_pos hcommits, hempty, List.nil_append]
    constructor
    · rw [hnew]
      exact Nat.le_refl 1
    · intro c hc
      rw [hnew] at hc
      rw [List.mem_singleton.mp hc]
      exact ⟨r, hr, hrefusal, htype, hhash⟩
    · rw [hnew]
      exact fun _ => List.cons_ne_nil _ _
  · have hsame : (w.deliver hash start body outcome).1.commits = w.commits := by
      rw [deliver_commits, if_neg hcommits]
    constructor
    · rw [hsame]
      exact h.once
    · intro c hc
      rw [hsame] at hc
      obtain ⟨r, hr, hrest⟩ := h.kept c hc
      exact ⟨r, executeCommand_keeps hr, hrest⟩
    · intro hacc
      rw [hsame]
      obtain hacc | hnew := commitsCommand_of_accepted hacc
      · exact h.accepted hacc
      · exact absurd hnew hcommits

theorem deliver_ok_iff (h : w.Committed hash start) :
    (∃ sequence, (w.deliver hash start body outcome).2 = .ok sequence) ↔
      ∃ c ∈ (w.deliver hash start body outcome).1.commits, hash c = hash body := by
  have hafter : (w.deliver hash start body outcome).1.Committed hash start := h.deliver
  constructor
  · intro hok
    obtain ⟨r, hr, hrefusal, -, hhash⟩ := executeCommand_ok_iff.mp hok
    obtain ⟨c, hc⟩ := List.exists_mem_of_ne_nil _ (hafter.accepted ⟨r, hr, hrefusal⟩)
    obtain ⟨r', hr', -, -, hhash'⟩ := hafter.kept c hc
    rw [show (w.deliver hash start body outcome).1.receipts.find? start.dispatchCommandId = some r from hr] at hr'
    cases hr'
    exact ⟨c, hc, hhash'.symm.trans hhash⟩
  · rintro ⟨c, hc, hsame⟩
    obtain ⟨r, hr, hrefusal, htype, hhash⟩ := hafter.kept c hc
    exact executeCommand_ok_iff.mpr ⟨r, hr, hrefusal, htype, hhash.trans hsame⟩

theorem Sound.posted (h : w.Sound hash start) (fate : PostFate) :
    (w.posted hash start body outcome fate).1.Sound hash start := by
  unfold FirstMessage.posted
  split_ifs
  · exact ⟨h.toCommitted.deliver, fun hsent => commits_deliver (h.sent hsent)⟩
  · exact ⟨⟨h.once, h.kept, h.accepted⟩, h.sent⟩

theorem commits_of_resolved (h : w.Committed hash start) {fate : PostFate} {second : Bool} {sequence : Nat}
    (hresult : sendResult second (w.posted hash start body outcome fate).2 fate = .resolved sequence) :
    (w.posted hash start body outcome fate).1.commits ≠ [] := by
  cases fate with
  | rejected arrived =>
    simp only [sendResult] at hresult
    split_ifs at hresult
  | aborted arrived => cases hresult
  | unreadable => cases hresult
  | read =>
    change sendResult second (w.deliver hash start body outcome).2 .read = _ at hresult
    cases hreply : (w.deliver hash start body outcome).2 with
    | ok sequence' =>
      obtain ⟨c, hc, -⟩ := (deliver_ok_iff h).mp ⟨sequence', hreply⟩
      exact List.ne_nil_of_mem hc
    | refused error =>
      rw [hreply] at hresult
      cases hresult

omit [DecidableEq H] in
private theorem Sound.advance (h : w.Sound hash start) : w.advance.Sound hash start := by
  unfold FirstMessage.advance
  split_ifs
  · exact ⟨⟨h.once, h.kept, h.accepted⟩, fun hsent => (by cases hsent)⟩
  · exact h

omit [DecidableEq H] in
private theorem Sound.retryFirstMessage (h : w.Sound hash start) (ready : Bool) :
    (w.retryFirstMessage ready).Sound hash start := by
  have hnone : ({ w with messageState := .none } : FirstMessage H).Sound hash start :=
    ⟨⟨h.once, h.kept, h.accepted⟩, fun hsent => (by cases hsent)⟩
  unfold FirstMessage.retryFirstMessage
  split_ifs
  · exact hnone.advance
  · exact hnone

theorem Sound.step {a : Action} (h : w.Sound hash start) (hstep : w.step hash start a = some w') :
    w'.Sound hash start := by
  cases a with
  | advance =>
    cases hstep
    exact h.advance
  | uploaded path =>
    simp only [FirstMessage.step] at hstep
    split at hstep
    · cases hstep
      exact ⟨⟨h.once, h.kept, h.accepted⟩, h.sent⟩
    · cases hstep
  | uploadFailed =>
    simp only [FirstMessage.step] at hstep
    split at hstep
    · cases hstep
      exact ⟨⟨h.once, h.kept, h.accepted⟩, fun hsent => (by cases hsent)⟩
    · cases hstep
  | post outcome fate =>
    simp only [FirstMessage.step] at hstep
    split at hstep
    · rename_i attachments second _
      cases hstep
      have hposted : (w.posted hash start (start.body attachments) outcome fate).1.Sound hash start := h.posted fate
      cases hresult : sendResult second (w.posted hash start (start.body attachments) outcome fate).2 fate with
      | again => exact ⟨⟨hposted.once, hposted.kept, hposted.accepted⟩, hposted.sent⟩
      | resolved sequence =>
        exact ⟨⟨hposted.once, hposted.kept, hposted.accepted⟩, fun _ => commits_of_resolved h.toCommitted hresult⟩
      | thrown error =>
        exact ⟨⟨hposted.once, hposted.kept, hposted.accepted⟩, fun hsent => (by cases hsent)⟩
    · cases hstep
  | arrive body outcome =>
    simp only [FirstMessage.step] at hstep
    split_ifs at hstep
    cases hstep
    have hrest : ({ w with strays := w.strays.erase body } : FirstMessage H).Sound hash start :=
      ⟨⟨h.once, h.kept, h.accepted⟩, h.sent⟩
    exact ⟨hrest.toCommitted.deliver, fun hsent => commits_deliver (hrest.sent hsent)⟩
  | reload =>
    cases hstep
    refine ⟨⟨h.once, h.kept, h.accepted⟩, fun hsent => h.sent ?_⟩
    change (if w.messageState = .pending then MessageState.failed else w.messageState) = .sent at hsent
    split_ifs at hsent
    exact hsent
  | retryFirstMessage ready =>
    cases hstep
    exact h.retryFirstMessage ready
  | retryWithoutAttachments ready =>
    cases hstep
    have hrest : ({ w with attachments := [] } : FirstMessage H).Sound hash start :=
      ⟨⟨h.once, h.kept, h.accepted⟩, h.sent⟩
    exact hrest.retryFirstMessage ready

theorem deliver_committed (h : w.Committed hash start) (hcommits : w.commits ≠ []) :
    (w.deliver hash start body outcome).1.commits = w.commits := by
  rw [deliver_commits, if_neg]
  intro hnew
  obtain ⟨c, hc⟩ := List.exists_mem_of_ne_nil _ hcommits
  obtain ⟨r, hr, -⟩ := h.kept c hc
  obtain ⟨hnone, -⟩ := find?_of_commitsCommand hash hnew
  rw [show w.receipts.find? start.dispatchCommandId = none from hnone] at hr
  cases hr

/-- In every run the bridge commits one dispatch of the start at most, and `sent` says that it did. Once it has, an
attempt whose POST is answered is `sent` exactly if its body is the committed one. -/
theorem sent_iff_same {attachments : List String} {receipts : Receipts H}
    (hfresh : receipts.find? start.dispatchCommandId = none)
    (hrun : Runs.Run (FirstMessage.step hash start) (fun _ _ => True) (created attachments receipts) w) :
    w.commits.length ≤ 1 ∧ (w.messageState = .sent → w.commits ≠ []) ∧
      ∀ attachments second outcome w', w.sending = some (.posting attachments second) → w.commits ≠ [] →
        w.step hash start (.post outcome .read) = some w' →
        (w'.messageState = .sent ↔ ∃ c ∈ w.commits, hash c = hash (start.body attachments)) := by
  have hsound : w.Sound hash start := hrun.invariant (P := Sound hash start)
    (fun _ _ _ h _ hstep => h.step hstep) (sound_created attachments hfresh)
  refine ⟨hsound.once, hsound.sent, fun attachments second outcome w' hsending hcommits hstep => ?_⟩
  simp only [FirstMessage.step, hsending, Option.some.injEq] at hstep
  change (w.deliver hash start _ outcome).1.settle attachments
    (sendResult second (w.deliver hash start _ outcome).2 .read) = w' at hstep
  have hkept : (w.deliver hash start (start.body attachments) outcome).1.commits = w.commits :=
    deliver_committed hsound.toCommitted hcommits
  rw [← hkept, ← deliver_ok_iff hsound.toCommitted, ← hstep]
  cases (w.deliver hash start (start.body attachments) outcome).2 with
  | ok sequence => exact ⟨fun _ => ⟨sequence, rfl⟩, fun _ => rfl⟩
  | refused error => exact ⟨fun hsent => (by cases hsent), fun ⟨_, hok⟩ => (by cases hok)⟩

/-! ### Two runs -/

def exampleStart : DraftStart := ⟨"d1", "t1", "hello"⟩

/-- Without attachments: the reply is lost twice, the retry's is read. -/
def resent : Option (FirstMessage DispatchBody) :=
  Runs.exec (step id exampleStart) (fun _ _ => True) (created [] .empty)
    [.advance, .post (.accepted 4) (.rejected true), .post (.accepted 5) (.rejected true), .retryFirstMessage true]

theorem sent_iff_same_resent : ∃ w : FirstMessage DispatchBody, w.commits ≠ [] ∧
    ∃ w', w.step id exampleStart (.post (.accepted 6) .read) = some w' ∧
      (w'.messageState = .sent ↔ ∃ c ∈ w.commits, id c = id (exampleStart.body [])) :=
  ⟨resent.get rfl, by decide, _, rfl, (sent_iff_same rfl (Runs.run_of_exec
    (Option.some_get (show resent.isSome from rfl)).symm)).2.2 [] false (.accepted 6) _ rfl (by decide) rfl⟩

/-- With a file: the same, and the retry uploads it again. -/
def reuploaded : Option (FirstMessage DispatchBody) :=
  Runs.exec (step id exampleStart) (fun _ _ => True) (created ["a.png"] .empty)
    [.advance, .uploaded "/up/1-a.png", .post (.accepted 4) (.rejected true), .post (.accepted 5) (.rejected true),
      .retryFirstMessage true, .uploaded "/up/2-a.png"]

/-- The message is committed, and the next attempt whose POST is answered fails. -/
theorem conflicts_after_upload : ∃ w : FirstMessage DispatchBody,
    Runs.Run (FirstMessage.step id exampleStart) (fun _ _ => True) (created ["a.png"] .empty) w ∧ w.commits ≠ [] ∧
      ∀ outcome, ∃ w', w.step id exampleStart (.post outcome .read) = some w' ∧ w'.messageState = .failed := by
  refine ⟨reuploaded.get rfl, Runs.run_of_exec (Option.some_get (show reuploaded.isSome from rfl)).symm, by decide,
    fun outcome => ⟨_, rfl, ?_⟩⟩
  cases outcome <;> rfl

end FirstMessage

end Client

end Sightr
