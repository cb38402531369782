import Sightr.Dispatch.Effects

/-!
# What a step leaves of another command

A handler that is suspended for one command is touched by no step that is about another, and the receipt of a
command is written by its own handler only.
-/

namespace Sightr

open Projection

namespace World

/-- The command's handler and receipt are as they were. -/
structure Leaves (commandId : String) (w w' : World) : Prop where
  tasks : w'.tasks.filter (·.answers commandId) = w.tasks.filter (·.answers commandId)
  receipt : w'.db.receipts.find? commandId = w.db.receipts.find? commandId

section

variable {commandId : String} {w m w' : World}

theorem Leaves.refl (w : World) : Leaves commandId w w := ⟨rfl, rfl⟩

theorem Leaves.trans (h : Leaves commandId w m) (h' : Leaves commandId m w') : Leaves commandId w w' :=
  ⟨h'.tasks.trans h.tasks, h'.receipt.trans h.receipt⟩

theorem leaves_of_eq (htasks : w'.tasks = w.tasks) (hdb : w'.db = w.db) : Leaves commandId w w' :=
  ⟨by rw [htasks], by rw [hdb]⟩

variable {task : Task}

theorem leaves_spawn (h : task.answers commandId = false) : Leaves commandId w (w.spawn task) :=
  ⟨by simp [spawn, h], rfl⟩

theorem leaves_setFailures (ref failures : Nat) : Leaves commandId w (w.setFailures ref failures) :=
  leaves_of_eq rfl rfl

theorem leaves_sendBack (threadId : String) (path : SendPath) (ref mark : Nat) (result : DeliverResult) :
    Leaves commandId w (w.sendBack threadId path ref mark result) := leaves_of_eq rfl rfl

variable {threadId : String}

theorem leaves_send {path : SendPath} {task : Nat → Nat → Task}
    (h : ∀ ref mark, (task ref mark).answers commandId = false) : Leaves commandId w (w.send threadId path task) :=
  ⟨by simp [send, spawn, observe, h], rfl⟩

theorem answers_of_isDeferred (h : task.isDeferred = true) : task.answers commandId = false := by
  cases task <;> first | rfl | cases h

variable {drafts : List EventDraft}

theorem leaves_append {options : AppendOptions} (hne : options.commandId ≠ some commandId)
    (h : w.append drafts options = some w') : Leaves commandId w w' := by
  obtain ⟨events, happ, hheard⟩ := heard_append h
  obtain ⟨calls, htasks, hcalls⟩ := hheard.tasks
  refine ⟨?_, Db.append_receipt_of_ne happ hne⟩
  have hnone : calls.filter (·.answers commandId) = [] :=
    List.filter_eq_nil_iff.mpr fun task htask => by simp [answers_of_isDeferred (hcalls task htask)]
  rw [htasks, List.filter_append, hnone, List.append_nil]

theorem leaves_getD {o : Option World} (h : ∀ w', o = some w' → Leaves commandId w w') :
    Leaves commandId w (o.getD w) := by
  cases o with
  | none => exact .refl w
  | some w' => exact h w' rfl

theorem leaves_of_effects {who newId : Option String} {moves : String → Prop} (h : Effects who newId moves w w')
    (hne : who ≠ some commandId) : Leaves commandId w w' := by
  have hother {options : AppendOptions} (hmine : options.commandId = none ∨ options.commandId = who) :
      options.commandId ≠ some commandId := by
    rcases hmine with h | h <;> rw [h]
    · simp
    · exact hne
  induction h with
  | refl => exact .refl _
  | tail _ hlast ih =>
    refine ih.trans ?_
    cases hlast with
    | beside h => exact ⟨h.handlers _ hne, by rw [h.db]⟩
    | commits hmine _ h | writes hmine _ _ _ h => exact leaves_append (hother hmine) h

/-- Effects that are no command's. -/
theorem leaves_of_deferred (h : Effects none none (fun _ => True) w w') : Leaves commandId w w' :=
  leaves_of_effects h (by simp)

/-! ### Passes -/

section

variable (threadId : String)

theorem leaves_passStart : Leaves commandId w (w.passStart threadId) := by
  unfold passStart
  split
  · exact .refl w
  · split_ifs
    · exact .refl w
    · dsimp only
      have hdrainer : Leaves commandId w { w with drainer := (w.drainer.stateOf threadId).1 } := leaves_of_eq rfl rfl
      split_ifs
      · exact hdrainer
      · exact hdrainer
      · exact hdrainer
      · exact hdrainer.trans (leaves_spawn rfl)
      · split
        · exact hdrainer.trans (leaves_setFailures _ _)
        · exact hdrainer.trans (leaves_spawn rfl)

theorem leaves_passReady (row : QueuedMessage) (passRef : Nat) (ready : Option Bool) :
    Leaves commandId w (w.passReady threadId row passRef ready) := by
  unfold passReady
  split
  · exact .refl w
  · exact leaves_of_deferred (effects_backOff _)
  · split
    · exact .refl w
    · dsimp only
      split
      · exact .refl w
      · split
        · exact .refl w
        · split
          · exact .refl w
          · split
            · exact leaves_of_deferred (effects_schedule _)
            · split
              · exact .refl w
              · split
                · exact .refl w
                · rename_i h
                  exact (leaves_append (by simp) h).trans (leaves_send fun _ _ => rfl)

theorem leaves_putBack (row : QueuedMessage) {next : World → World}
    (h : ∀ m, Leaves commandId m (next m)) : Leaves commandId w (w.putBack threadId row next) := by
  unfold putBack
  split
  · exact h w
  · split
    · exact .refl w
    · rename_i happ
      exact (leaves_append (by simp) happ).trans (h _)

theorem leaves_passSent (still : QueuedMessage) (passRef ref mark : Nat)
    (result : DeliverResult) : Leaves commandId w (w.passSent threadId still passRef ref mark result) := by
  have hback : Leaves commandId w (w.sendBack threadId (.drained still.id) ref mark result) := leaves_sendBack ..
  unfold passSent
  dsimp only
  split
  · exact hback.trans ((leaves_setFailures _ _).trans (leaves_getD fun w' h => leaves_append (by simp) h))
  · exact hback.trans ((leaves_setFailures _ _).trans (leaves_getD fun w' h => leaves_append (by simp) h))
  · refine hback.trans (leaves_putBack _ _ fun m => ?_)
    split_ifs
    · exact leaves_of_deferred (effects_backOff _)
    · exact .refl m
  · split_ifs
    · split
      · exact hback.trans (leaves_setFailures _ _)
      · exact hback.trans ((leaves_setFailures _ _).trans (leaves_getD fun w' h => leaves_append (by simp) h))
    · exact hback.trans ((leaves_setFailures _ _).trans (leaves_putBack _ _ fun m => leaves_of_deferred (effects_backOff _)))

end

variable {newId : String} {answer : Answer}

theorem leaves_passOn {stage : PassStage} (h : w.passOn threadId newId stage answer = some w') :
    Leaves commandId w w' := by
  unfold passOn at h
  split at h <;> cases h
  · exact leaves_of_deferred (effects_passRestart ..)
  · exact .refl w
  · exact leaves_passReady ..
  · exact .refl w
  · exact leaves_passSent ..
  · exact leaves_passSent ..

/-! ### Steps -/

/-- The action is the command's arrival, or resumes its handler, or is a batch under its id. -/
def isAbout (w : World) (commandId : String) : Action → Bool
  | .command _ ctx _ => ctx.commandId = commandId
  | .environment _ options => options.commandId = some commandId
  | .resume i _ _ => (w.tasks[i]?).any (·.answers commandId)
  | _ => false

variable {a : Action}

theorem commandOf_ne (h : w.isAbout commandId a = false) : w.commandOf a ≠ some commandId := by
  cases a with
  | command c ctx newId => simpa [isAbout, commandOf] using h
  | environment drafts options => simpa [isAbout, commandOf] using h
  | resume i answer newId =>
    cases htask : w.tasks[i]? with
    | none => simp [commandOf, htask]
    | some task => simpa [isAbout, commandOf, htask, Task.answers_eq] using h
  | _ => simp [commandOf]

theorem leaves_pass (hpass : w.passes a = true) (h : w.step a = some w') : Leaves commandId w w' := by
  unfold step at h
  cases a with
  | startPass threadId =>
    dsimp only at h
    split_ifs at h
    cases h
    have hbegin (d : Drainer) : Leaves commandId w { w with drainer := d } := leaves_of_eq rfl rfl
    exact (hbegin _).trans (leaves_passStart _)
  | resume i answer newId =>
    dsimp only at h
    split_ifs at h
    split at h
    · cases h
    · rename_i task htask
      obtain ⟨threadId, stage, rfl⟩ : ∃ threadId stage, task = .pass threadId stage := by
        cases task <;> simp_all [passes, Task.pass?]
      have htake : Leaves commandId w ((w.take i).issue newId) := ⟨handlers_take htask rfl, rfl⟩
      exact htake.trans (leaves_passOn h)
  | _ => cases hpass

theorem leaves_step (hother : w.isAbout commandId a = false) (h : w.step a = some w') :
    Leaves commandId w w' := by
  cases hpass : w.passes a with
  | false =>
    have heffects : Effects (w.commandOf a) a.newId (fun _ => True) w w' :=
      effects_step hpass (.inr fun _ => trivial) (fun _ _ => trivial) h
    exact leaves_of_effects heffects (commandOf_ne hother)
  | true => exact leaves_pass hpass h

end

end World

end Sightr
