import Sightr.Dispatch.Handlers
import Sightr.Lib.Runs
import Sightr.Routes.Receipts

/-!
# Sending a message again

`sendCommand` of `web2/src/stream/commands.ts` posts a command, and once more with the same id when the fetch is
rejected. `dispatchMessage` of `web2/src/state/composer.ts` sends a message under an id of its own; when that fails, a
banner offers to send the same text again, under a new id. A POST's fate is the network's.
-/

namespace Sightr

namespace Client

open Keyed (Table)

/-! ### One POST -/

inductive PostFate
  /-- The fetch is rejected; the request arrived or did not. -/
  | rejected (arrived : Bool)
  | aborted (arrived : Bool)
  /-- The reply comes, and its body cannot be read. -/
  | unreadable
  | read
  deriving DecidableEq

def PostFate.arrived : PostFate → Bool
  | rejected arrived | aborted arrived => arrived
  | unreadable | read => true

inductive SendResult
  | again
  | resolved (sequence : Nat)
  /-- Thrown, with the error of a reply that could be read. -/
  | thrown (error : Option String)
  deriving DecidableEq

/-- What `sendCommand` makes of its first or second POST. -/
def sendResult (second : Bool) (reply : CommandReply) : PostFate → SendResult
  | .rejected _ => if second then .thrown none else .again
  | .aborted _ => .thrown none
  | .unreadable => .thrown none
  | .read =>
    match reply with
    | .ok sequence => .resolved sequence
    | .refused error => .thrown (some error)

/-- The POST is the attempt's last, and its reply is not read. -/
def PostFate.unheard (second : Bool) : PostFate → Bool
  | rejected _ => second
  | aborted _ | unreadable => true
  | read => false

/-- The bridge's part of a POST: nothing, when the request does not arrive. -/
def posted {B H : Type} [DecidableEq H] (hash : B → H) (receipts : Receipts H) (request : CommandRequest B)
    (outcome : CommandOutcome) (fate : PostFate) : Receipts H × CommandReply :=
  if fate.arrived then executeCommand hash receipts request outcome else (receipts, .refused "")

section

variable {B H : Type} [DecidableEq H] {hash : B → H} {receipts : Receipts H} {request : CommandRequest B}
  {outcome : CommandOutcome} {fate : PostFate}

theorem find?_posted (hash : B → H) (receipts : Receipts H) (request : CommandRequest B) (outcome : CommandOutcome)
    (fate : PostFate) (id : String) :
    (posted hash receipts request outcome fate).1.find? id = receipts.find? id ∨
      id = request.commandId ∧ receipts.find? id = none ∧
        ∃ r, (posted hash receipts request outcome fate).1.find? id = some r ∧ r.type = request.type ∧
          r.hash = hash request.body := by
  unfold posted
  split_ifs
  · exact find?_executeCommand hash receipts request outcome id
  · exact .inl rfl

theorem accepted_of_posted {id : String} (h : Accepted (posted hash receipts request outcome fate).1 id) :
    Accepted receipts id ∨ id = request.commandId := by
  unfold posted at h
  split_ifs at h
  · exact accepted_of_executeCommand h
  · exact .inl h

theorem posted_read (hash : B → H) (receipts : Receipts H) (request : CommandRequest B) (outcome : CommandOutcome) :
    posted hash receipts request outcome .read = executeCommand hash receipts request outcome := rfl

end

/-! ### The composer -/

structure DispatchBody where
  threadId : String
  text : String
  mode : DispatchMode
  attachments : List ChatAttachment
  deriving DecidableEq

structure Posting where
  commandId : String
  /-- The message it sends: the tap on Send it goes back to. -/
  message : Nat
  body : DispatchBody
  second : Bool
  deriving DecidableEq

def Posting.request (p : Posting) : CommandRequest DispatchBody := ⟨p.commandId, "message.dispatch", p.body⟩

structure RetryOffer where
  message : Nat
  text : String
  attachments : List ChatAttachment
  deriving DecidableEq

/-- One thread's composer, with the receipts of the bridge. -/
structure Dispatching (H : Type) where
  threadId : String
  receipts : Receipts H
  busy : Option Posting
  offer : Option RetryOffer
  /-- The dispatches so far: their ids and messages. -/
  attempts : List (String × Nat)
  messages : Nat

namespace Dispatching

variable {H : Type} [DecidableEq H] (hash : DispatchBody → H)

def start (threadId : String) (receipts : Receipts H) : Dispatching H := ⟨threadId, receipts, none, none, [], 0⟩

inductive Action
  | send (commandId text : String) (attachments : List ChatAttachment) (mode : DispatchMode)
  | retry (commandId : String) (mode : DispatchMode)
  | dismiss
  | post (outcome : CommandOutcome) (fate : PostFate)

variable (w : Dispatching H)

def dispatchMessage (commandId : String) (message : Nat) (text : String)
    (attachments : List ChatAttachment) (mode : DispatchMode) : Dispatching H :=
  { w with
    busy := some { commandId, message, body := { threadId := w.threadId, text, mode, attachments }, second := false }
    offer := none
    attempts := w.attempts ++ [(commandId, message)] }

/-- What `dispatchMessage` does when its POST, first or second, is over. -/
def settle (p : Posting) : SendResult → Dispatching H
  | .again => { w with busy := some { p with second := true } }
  | .resolved _ => { w with busy := none }
  | .thrown _ =>
    { w with
      busy := none
      offer := some { message := p.message, text := p.body.text, attachments := p.body.attachments } }

def Fresh (commandId : String) : Prop := commandId ∉ w.attempts.map Prod.fst ∧ w.receipts.find? commandId = none

instance (w : Dispatching H) (commandId : String) : Decidable (w.Fresh commandId) := by
  unfold Fresh
  exact @instDecidableAnd _ _ _ (decidable_of_iff ((w.receipts.find? commandId).isNone) Option.isNone_iff_eq_none)

def step : Action → Option (Dispatching H)
  | .send commandId text attachments mode =>
    if w.busy.isNone ∧ w.Fresh commandId then
      some ({ w with messages := w.messages + 1 }.dispatchMessage commandId w.messages text attachments mode)
    else none
  | .retry commandId mode =>
    match w.busy, w.offer with
    | none, some offer =>
      if w.Fresh commandId then some (w.dispatchMessage commandId offer.message offer.text offer.attachments mode)
      else none
    | _, _ => none
  | .dismiss => some { w with offer := none }
  | .post outcome fate =>
    match w.busy with
    | none => none
    | some p =>
      let (receipts, reply) := posted hash w.receipts p.request outcome fate
      some ({ w with receipts }.settle p (sendResult p.second reply fate))

/-- When an attempt's last POST fails without a reply that can be read, the bridge has accepted neither it nor the
attempt's first one. -/
def Heard : Action → Prop
  | .post outcome fate => ∀ p ∈ w.busy, fate.unheard p.second = true →
      ¬Accepted (posted hash w.receipts p.request outcome fate).1 p.commandId
  | _ => True

def Unsent (message : Nat) : Prop := ∀ a ∈ w.attempts, a.2 = message → ¬Accepted w.receipts a.1

/-- A message is accepted by one of its attempts at most. -/
def Once : Prop :=
  ∀ a ∈ w.attempts, ∀ b ∈ w.attempts, a.2 = b.2 → Accepted w.receipts a.1 → Accepted w.receipts b.1 → a = b

structure Sound (w : Dispatching H) : Prop where
  nodup : (w.attempts.map Prod.fst).Nodup
  numbered : ∀ a ∈ w.attempts, a.2 < w.messages
  once : w.Once
  quiet : w.busy.isSome → w.offer = none
  offered : ∀ o ∈ w.offer, o.message < w.messages ∧ w.Unsent o.message
  /-- Nor was an earlier attempt of the message under way; a receipt of its id is of its own body. -/
  posting : ∀ p ∈ w.busy, (p.commandId, p.message) ∈ w.attempts ∧
    (∀ a ∈ w.attempts, a.2 = p.message → a.1 ≠ p.commandId → ¬Accepted w.receipts a.1) ∧
    ∀ r, w.receipts.find? p.commandId = some r → r.type = p.request.type ∧ r.hash = hash p.body

variable {hash} {w w' : Dispatching H}

omit [DecidableEq H] in
theorem sound_start (threadId : String) (receipts : Receipts H) : (start threadId receipts).Sound hash where
  nodup := List.nodup_nil
  numbered := by simp [start]
  once := by simp [start, Once]
  quiet h := by cases h
  offered o h := by cases h
  posting p h := by cases h

omit [DecidableEq H] in
private theorem Sound.eq_of_id (h : w.Sound hash) {a b : String × Nat} (ha : a ∈ w.attempts) (hb : b ∈ w.attempts)
    (hid : a.1 = b.1) : a = b := List.inj_on_of_nodup_map h.nodup ha hb hid

omit [DecidableEq H] in
private theorem Sound.dispatchMessage (h : w.Sound hash) {commandId text : String} {message : Nat}
    {attachments : List ChatAttachment} {mode : DispatchMode} (hfresh : w.Fresh commandId)
    (hnumber : message < w.messages) (hunsent : w.Unsent message) :
    (w.dispatchMessage commandId message text attachments mode).Sound hash := by
  have hnew : ¬Accepted w.receipts commandId := by
    rintro ⟨r, hr, -⟩
    rw [hfresh.2] at hr
    cases hr
  constructor
  · change (List.map Prod.fst (w.attempts ++ [(commandId, message)])).Nodup
    rw [List.map_append]
    refine List.nodup_append.mpr ⟨h.nodup, List.nodup_singleton _, fun a ha b hb hab => hfresh.1 ?_⟩
    have hb : b = commandId := List.mem_singleton.mp hb
    rw [← hb, ← hab]
    exact ha
  · intro a ha
    rcases List.mem_append.mp ha with ha | ha
    · exact h.numbered a ha
    · rw [List.mem_singleton.mp ha]
      exact hnumber
  · intro a ha b hb hmessage hacc hacc'
    rcases List.mem_append.mp ha with ha | ha
    · rcases List.mem_append.mp hb with hb | hb
      · exact h.once a ha b hb hmessage hacc hacc'
      · rw [List.mem_singleton.mp hb] at hacc'
        exact absurd hacc' hnew
    · rw [List.mem_singleton.mp ha] at hacc
      exact absurd hacc hnew
  · exact fun _ => rfl
  · intro o ho
    cases ho
  · intro p hp
    cases hp
    refine ⟨List.mem_append_right _ (List.mem_singleton_self _), fun a ha hmessage hother => ?_, fun r hr => ?_⟩
    · rcases List.mem_append.mp ha with ha | ha
      · exact hunsent a ha hmessage
      · exact absurd (congrArg Prod.fst (List.mem_singleton.mp ha)) hother
    · have hnone : w.receipts.find? commandId = some r := hr
      rw [hfresh.2] at hnone
      cases hnone

private theorem Sound.posted (h : w.Sound hash) {p : Posting} (hbusy : w.busy = some p) (outcome : CommandOutcome)
    (fate : PostFate) : let receipts := (Client.posted hash w.receipts p.request outcome fate).1
    Once { w with receipts } ∧ (∀ a ∈ w.attempts, a.2 = p.message → a.1 ≠ p.commandId → ¬Accepted receipts a.1) ∧
      ∀ r, receipts.find? p.commandId = some r → r.type = p.request.type ∧ r.hash = hash p.body := by
  obtain ⟨hmem, hothers, hown⟩ := h.posting p hbusy
  have hrest : ∀ a ∈ w.attempts, a.2 = p.message → a.1 ≠ p.commandId →
      ¬Accepted (Client.posted hash w.receipts p.request outcome fate).1 a.1 := by
    intro a ha hmessage hother hacc
    obtain hacc | hsame := accepted_of_posted hacc
    · exact hothers a ha hmessage hother hacc
    · exact hother hsame
  refine ⟨fun a ha b hb hmessage hacc hacc' => ?_, hrest, fun r hr => ?_⟩
  · -- If one of them is this attempt, the other is not accepted.
    obtain hacc₀ | hsame := accepted_of_posted hacc
    · obtain hacc₀' | hsame' := accepted_of_posted hacc'
      · exact h.once a ha b hb hmessage hacc₀ hacc₀'
      · have hb' : b = (p.commandId, p.message) := h.eq_of_id hb hmem hsame'
        by_cases ha' : a.1 = p.commandId
        · exact h.eq_of_id ha hb (ha'.trans hsame'.symm)
        · exact absurd hacc (hrest a ha (by rw [hmessage, hb']) ha')
    · have ha' : a = (p.commandId, p.message) := h.eq_of_id ha hmem hsame
      by_cases hb' : b.1 = p.commandId
      · exact h.eq_of_id ha hb (hsame.trans hb'.symm)
      · exact absurd hacc' (hrest b hb (by rw [← hmessage, ha']) hb')
  · obtain hsame | ⟨-, -, new, hnew, htype, hhash⟩ := find?_posted hash w.receipts p.request outcome fate p.commandId
    · exact hown r (hsame ▸ hr)
    · rw [hnew] at hr
      cases hr
      exact ⟨htype, hhash⟩

theorem not_accepted_of_thrown {p : Posting} {outcome : CommandOutcome} {fate : PostFate} {error : Option String}
    {receipts : Receipts H} (hheard : fate.unheard p.second = true →
      ¬Accepted (Client.posted hash receipts p.request outcome fate).1 p.commandId)
    (hown : ∀ r, (Client.posted hash receipts p.request outcome fate).1.find? p.commandId = some r →
      r.type = p.request.type ∧ r.hash = hash p.body)
    (hthrown : sendResult p.second (Client.posted hash receipts p.request outcome fate).2 fate = .thrown error) :
    ¬Accepted (Client.posted hash receipts p.request outcome fate).1 p.commandId := by
  cases fate with
  | rejected arrived =>
    refine hheard ?_
    simp only [sendResult] at hthrown
    split_ifs at hthrown with hsecond
    exact hsecond
  | aborted arrived => exact hheard rfl
  | unreadable => exact hheard rfl
  | read =>
    rintro ⟨r, hr, hnone⟩
    obtain ⟨htype, hhash⟩ := hown r hr
    rw [posted_read] at hr hthrown
    obtain ⟨sequence, hok⟩ := executeCommand_ok_iff.mpr ⟨r, hr, hnone, htype, hhash⟩
    rw [hok] at hthrown
    cases hthrown

theorem Sound.step (h : w.Sound hash) {a : Action} (hheard : w.Heard hash a) (hstep : w.step hash a = some w') :
    w'.Sound hash := by
  cases a with
  | send commandId text attachments mode =>
    simp only [Dispatching.step] at hstep
    split_ifs at hstep with hready
    cases hstep
    have hnext : ({ w with messages := w.messages + 1 } : Dispatching H).Sound hash :=
      ⟨h.nodup, fun a ha => Nat.lt_succ_of_lt (h.numbered a ha), h.once, h.quiet,
        fun o ho => ⟨Nat.lt_succ_of_lt (h.offered o ho).1, (h.offered o ho).2⟩, h.posting⟩
    exact hnext.dispatchMessage hready.2 (Nat.lt_succ_self _)
      fun a ha hmessage => absurd hmessage (Nat.ne_of_lt (h.numbered a ha))
  | retry commandId mode =>
    simp only [Dispatching.step] at hstep
    split at hstep
    · rename_i offer hbusy hoffer
      split_ifs at hstep with hfresh
      cases hstep
      obtain ⟨hnumber, hunsent⟩ := h.offered offer hoffer
      exact h.dispatchMessage hfresh hnumber hunsent
    · cases hstep
  | dismiss =>
    cases hstep
    exact ⟨h.nodup, h.numbered, h.once, fun _ => rfl, fun o ho => (by cases ho), h.posting⟩
  | post outcome fate =>
    simp only [Dispatching.step] at hstep
    split at hstep
    · cases hstep
    · rename_i p hbusy
      cases hstep
      obtain ⟨honce, hothers, hown⟩ := h.posted hbusy outcome fate
      have hquiet : w.offer = none := h.quiet (by rw [hbusy]; rfl)
      obtain ⟨hmem, -⟩ := h.posting p hbusy
      cases hresult : sendResult p.second (Client.posted hash w.receipts p.request outcome fate).2 fate with
      | again =>
        refine ⟨h.nodup, h.numbered, honce, fun _ => hquiet, fun o ho => ?_, fun q hq => ?_⟩
        · rw [show w.offer = some o from ho] at hquiet
          cases hquiet
        · cases hq
          exact ⟨hmem, hothers, hown⟩
      | resolved sequence =>
        refine ⟨h.nodup, h.numbered, honce, fun hbusy => (by cases hbusy), fun o ho => ?_, fun q hq => (by cases hq)⟩
        rw [show w.offer = some o from ho] at hquiet
        cases hquiet
      | thrown error =>
        refine ⟨h.nodup, h.numbered, honce, fun hbusy => (by cases hbusy), fun o ho => ?_, fun q hq => (by cases hq)⟩
        cases ho
        refine ⟨h.numbered _ hmem, fun a ha hmessage => ?_⟩
        by_cases hid : a.1 = p.commandId
        · rw [hid]
          exact not_accepted_of_thrown (hheard p hbusy) hown hresult
        · exact hothers a ha hmessage hid

/-- In every run in which no attempt that fails unheard was accepted, a message is accepted by one of its attempts at
most, and what the banner offers to send again was not accepted. -/
theorem retry_commits_once {threadId : String} {receipts : Receipts H}
    (hrun : Runs.Run (Dispatching.step hash) (Heard hash) (start threadId receipts) w) :
    w.Once ∧ ∀ o ∈ w.offer, w.Unsent o.message := by
  have hsound : w.Sound hash := hrun.invariant (P := Sound hash)
    (fun _ _ _ h hheard hstep => h.step hheard hstep) (sound_start threadId receipts)
  exact ⟨hsound.once, fun o ho => (hsound.offered o ho).2⟩

def Action.heard : Action → Bool
  | .post _ fate => fate = .read
  | _ => true

/-- A message that the bridge refuses once and then takes. -/
def retried : Option (Dispatching DispatchBody) :=
  Runs.exec (step id) (fun _ a => a.heard = true) (start "t1" .empty)
    [.send "c1" "hello" [] .start, .post (.refused "thread-busy") .read, .retry "c2" .start,
      .post (.accepted 4) .read]

theorem retry_commits_once_refused : ∃ w : Dispatching DispatchBody, w.attempts = [("c1", 0), ("c2", 0)] ∧
    Accepted w.receipts "c2" ∧ w.Once ∧ ∀ o ∈ w.offer, w.Unsent o.message := by
  refine ⟨retried.get rfl, rfl, by decide, retry_commits_once ((Runs.run_of_exec
    (Option.some_get (show retried.isSome from rfl)).symm).imp fun m a hread => ?_)⟩
  cases a with
  | post outcome fate =>
    intro p _ hunheard
    rw [show fate = .read from of_decide_eq_true hread] at hunheard
    cases hunheard
  | _ => trivial

/-- Both replies of the first attempt are lost, its command accepted by the first POST. -/
def lost : Option (Dispatching DispatchBody) :=
  Runs.exec (step id) (fun _ _ => True) (start "t1" .empty)
    [.send "c1" "hello" [] .start, .post (.accepted 4) (.rejected true), .post (.accepted 5) (.rejected false),
      .retry "c2" .start, .post (.accepted 5) .read]

/-- The banner's Retry sends the message a second time. -/
theorem retry_commits_twice :
    ∃ w, Runs.Run (Dispatching.step id) (fun _ _ => True) (start "t1" .empty) w ∧ ¬w.Once := by
  refine ⟨lost.get rfl, Runs.run_of_exec (Option.some_get (show lost.isSome from rfl)).symm, fun h => ?_⟩
  have hsame := h ("c1", 0) (by decide) ("c2", 0) (by decide) rfl (by decide) (by decide)
  exact absurd hsame (by decide)

end Dispatching

end Client

end Sightr
