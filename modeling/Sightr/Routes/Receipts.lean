import Sightr.Lib.Table

/-!
# Command receipts

The command route of `bridge/threads/v2-routes.ts`, seen by the requests with one command id: its chain of
requests in flight runs them one after another. A request finds the receipt of its id or is decided; a command
that is accepted, or refused after work began, leaves a receipt. The decision is the handler's, a parameter
here, and so is the hash of a body.
-/

namespace Sightr

open Keyed (Table)

structure RouteReceipt (H : Type) where
  commandId : String
  type : String
  sequence : Nat
  hash : H
  /-- The refusal of a command that was refused after work began. -/
  refusal : Option String

inductive CommandReply
  | ok (sequence : Nat)
  | refused (error : String)
  deriving DecidableEq

structure CommandRequest (B : Type) where
  commandId : String
  type : String
  body : B
  deriving DecidableEq

/-- What a handler makes of a command, with the sequence its batch ends at. -/
inductive CommandOutcome
  | accepted (sequence : Nat)
  | refused (error : String)
  | refusedAfterWork (error : String) (sequence : Nat)
  deriving DecidableEq

def CONFLICT : String := "commandId was already used for a different command"

abbrev Receipts (H : Type) := Table (@RouteReceipt.commandId H)

variable {B H : Type} [DecidableEq H] (hash : B → H)

variable (receipts : Receipts H)

def fromReceipt (request : CommandRequest B) : Option CommandReply :=
  (receipts.find? request.commandId).map fun r =>
    if r.type ≠ request.type ∨ r.hash ≠ hash request.body then .refused CONFLICT
    else
      match r.refusal with
      | some error => .refused error
      | none => .ok r.sequence

/-- A request, its receipt or else its handler's outcome. -/
def executeCommand (request : CommandRequest B) (outcome : CommandOutcome) : Receipts H × CommandReply :=
  let receipt (sequence : Nat) (refusal : Option String) : RouteReceipt H :=
    { commandId := request.commandId, type := request.type, sequence, hash := hash request.body, refusal }
  match fromReceipt hash receipts request with
  | some reply => (receipts, reply)
  | none =>
    match outcome with
    | .accepted sequence => (receipts.set (receipt sequence none), .ok sequence)
    | .refused error => (receipts, .refused error)
    | .refusedAfterWork error sequence => (receipts.set (receipt sequence (some error)), .refused error)

omit [DecidableEq H] in
/-- The bridge has accepted the command with this id. -/
def Accepted (commandId : String) : Prop := ∃ r, receipts.find? commandId = some r ∧ r.refusal = none

instance (receipts : Receipts H) (commandId : String) : Decidable (Accepted receipts commandId) :=
  match h : receipts.find? commandId with
  | none => isFalse fun ⟨_, hr, _⟩ => by rw [h] at hr; cases hr
  | some r =>
    if hnone : r.refusal = none then isTrue ⟨r, h, hnone⟩
    else isFalse fun ⟨_, hr, hnot⟩ => hnone (by rw [h] at hr; exact Option.some.inj hr ▸ hnot)

omit [DecidableEq H] in
def commitsCommand (request : CommandRequest B) : CommandOutcome → Bool
  | .accepted _ => (receipts.find? request.commandId).isNone
  | _ => false

variable {hash} {receipts : Receipts H} {request : CommandRequest B} {outcome : CommandOutcome}

theorem find?_executeCommand (hash : B → H) (receipts : Receipts H) (request : CommandRequest B)
    (outcome : CommandOutcome) (id : String) :
    (executeCommand hash receipts request outcome).1.find? id = receipts.find? id ∨
      id = request.commandId ∧ receipts.find? id = none ∧
        ∃ r, (executeCommand hash receipts request outcome).1.find? id = some r ∧ r.type = request.type ∧
          r.hash = hash request.body := by
  unfold executeCommand
  cases hfound : fromReceipt hash receipts request with
  | some reply => exact .inl rfl
  | none =>
    have hnone : receipts.find? request.commandId = none := Option.map_eq_none_iff.mp hfound
    have hset (r : RouteReceipt H) (hr : r.commandId = request.commandId) (htype : r.type = request.type)
        (hhash : r.hash = hash request.body) : (receipts.set r).find? id = receipts.find? id ∨
          id = request.commandId ∧ receipts.find? id = none ∧
            ∃ r', (receipts.set r).find? id = some r' ∧ r'.type = request.type ∧ r'.hash = hash request.body := by
      rw [Table.find?_set, hr]
      split_ifs with hid
      · exact .inr ⟨hid.symm, hid ▸ hnone, r, rfl, htype, hhash⟩
      · exact .inl rfl
    cases outcome with
    | accepted sequence => exact hset _ rfl rfl rfl
    | refused error => exact .inl rfl
    | refusedAfterWork error sequence => exact hset _ rfl rfl rfl

theorem executeCommand_keeps {id : String} {r : RouteReceipt H} (h : receipts.find? id = some r) :
    (executeCommand hash receipts request outcome).1.find? id = some r := by
  obtain hsame | ⟨-, hnone, -⟩ := find?_executeCommand hash receipts request outcome id
  · rw [hsame, h]
  · rw [h] at hnone
    cases hnone

theorem accepted_of_executeCommand {id : String} (h : Accepted (executeCommand hash receipts request outcome).1 id) :
    Accepted receipts id ∨ id = request.commandId := by
  obtain hsame | ⟨hid, -⟩ := find?_executeCommand hash receipts request outcome id
  · obtain ⟨r, hr, hnone⟩ := h
    exact .inl ⟨r, hsame ▸ hr, hnone⟩
  · exact .inr hid

theorem find?_of_commitsCommand (hash : B → H) (h : commitsCommand receipts request outcome = true) :
    receipts.find? request.commandId = none ∧
      ∃ r, (executeCommand hash receipts request outcome).1.find? request.commandId = some r ∧ r.refusal = none ∧
        r.type = request.type ∧ r.hash = hash request.body := by
  cases outcome with
  | accepted sequence =>
    have hnone : receipts.find? request.commandId = none := Option.isNone_iff_eq_none.mp h
    refine ⟨hnone, ?_⟩
    simp only [executeCommand, fromReceipt, hnone, Option.map_none]
    exact ⟨_, by rw [Table.find?_set, if_pos rfl], rfl, rfl, rfl⟩
  | _ => cases h

theorem commitsCommand_of_accepted (h : Accepted (executeCommand hash receipts request outcome).1 request.commandId) :
    Accepted receipts request.commandId ∨ commitsCommand receipts request outcome = true := by
  cases hfind : receipts.find? request.commandId with
  | some r =>
    obtain ⟨r', hr', hrefusal⟩ := h
    rw [executeCommand_keeps hfind] at hr'
    exact .inl ⟨r', hr' ▸ hfind, hrefusal⟩
  | none =>
    cases outcome with
    | accepted sequence => exact .inr (Option.isNone_iff_eq_none.mpr hfind)
    | refused error =>
      simp only [executeCommand, fromReceipt, hfind, Option.map_none] at h
      exact .inl h
    | refusedAfterWork error sequence =>
      simp only [executeCommand, fromReceipt, hfind, Option.map_none] at h
      obtain ⟨r, hr, hnone⟩ := h
      rw [Table.find?_set, if_pos rfl] at hr
      cases hr
      cases hnone

/-- After the request its command is accepted and it has the accepted one's type and body exactly if it is answered
with a sequence. -/
theorem executeCommand_ok_iff : (∃ sequence, (executeCommand hash receipts request outcome).2 = .ok sequence) ↔
      ∃ r, (executeCommand hash receipts request outcome).1.find? request.commandId = some r ∧ r.refusal = none ∧
        r.type = request.type ∧ r.hash = hash request.body := by
  unfold executeCommand fromReceipt
  cases hfind : receipts.find? request.commandId with
  | some r =>
    simp only [Option.map_some, hfind, Option.some.injEq, exists_eq_left']
    split_ifs with hdiffers
    · simp only [exists_false, false_iff]
      rintro ⟨-, htype, hhash⟩
      obtain hd | hd := hdiffers
      · exact hd htype
      · exact hd hhash
    · rw [not_or, not_not, not_not] at hdiffers
      cases hrefusal : r.refusal <;> simp [hdiffers]
  | none =>
    simp only [Option.map_none]
    cases outcome with
    | accepted sequence =>
      simp only [CommandReply.ok.injEq, exists_eq', true_iff]
      exact ⟨_, by rw [Table.find?_set, if_pos rfl], rfl, rfl, rfl⟩
    | refused error => simp [hfind]
    | refusedAfterWork error sequence =>
      simp only [reduceCtorEq, exists_false, false_iff]
      rintro ⟨r, hr, hnone, -⟩
      rw [Table.find?_set, if_pos rfl] at hr
      cases hr
      cases hnone

end Sightr
