import Mathlib.Data.List.Induction

/-!
# Programs that log what they do

A program acts on a world it does not control. Each action is answered by the world, which may look at
everything done so far, and is written to a log together with its answer. A triple says what a program
makes of a log; `Each` says that every entry of a log was allowed by what stood before it.

## Main definitions

* `Logged.perform`: one action.
* `Logged.Triple`: from a log that meets the precondition the program ends as the postcondition says.
* `Logged.Each`: every entry of the log was allowed when it was written.
-/

abbrev Logged (ε α : Type) := StateM (List ε) α

namespace Logged

variable {ε α β : Type}

/-- One action: the world answers, the answer is logged. -/
def perform (answer : List ε → β) (entry : β → ε) : Logged ε β :=
  fun log => (answer log, log ++ [entry (answer log)])

@[simp] theorem pure_apply (a : α) (log : List ε) : (pure a : Logged ε α) log = (a, log) := rfl

/-! ### Triples -/

def Triple (P : List ε → Prop) (m : Logged ε α) (Q : α → List ε → Prop) : Prop :=
  ∀ log, P log → Q (m log).1 (m log).2

variable {P P' : List ε → Prop} {Q Q' : α → List ε → Prop} {R : β → List ε → Prop}

theorem Triple.pure {a : α} (h : ∀ log, P log → Q a log) : Triple P (Pure.pure a) Q := h

variable {m : Logged ε α}

theorem Triple.bind {f : α → Logged ε β} (hm : Triple P m Q) (hf : ∀ a, Triple (Q a) (f a) R) : Triple P (m >>= f) R :=
  fun log h => hf (m log).1 (m log).2 (hm log h)

theorem Triple.perform {answer : List ε → β} {entry : β → ε}
    (h : ∀ log, P log → R (answer log) (log ++ [entry (answer log)])) :
    Triple P (Logged.perform answer entry) R := h

theorem Triple.pre (h : Triple P m Q) (hP : ∀ log, P' log → P log) : Triple P' m Q :=
  fun log h' => h log (hP log h')

theorem Triple.post (h : Triple P m Q) (hQ : ∀ a log, Q a log → Q' a log) : Triple P m Q' :=
  fun log hP => hQ _ _ (h log hP)

/-- A precondition's part that does not depend on the log. -/
theorem Triple.of_pure {p : Prop} (h : p → Triple P m Q) : Triple (fun log => p ∧ P log) m Q :=
  fun log hlog => h hlog.1 log hlog.2

/-- Every log the precondition allows, one at a time. -/
theorem Triple.of_forall (h : ∀ start, P start → Triple (· = start) m Q) : Triple P m Q :=
  fun log hlog => h log hlog log rfl

/-! ### Logs whose entries were all allowed -/

/-- Every entry was allowed by the log before it. -/
def Each (G : List ε → ε → Prop) (log : List ε) : Prop := ∀ pre e post, log = pre ++ e :: post → G pre e

variable {G : List ε → ε → Prop}

theorem each_nil : Each G [] := by
  intro pre e post h
  cases pre <;> cases h

theorem each_concat {log : List ε} {e : ε} : Each G (log ++ [e]) ↔ Each G log ∧ G log e := by
  constructor
  · intro h
    refine ⟨fun pre e' post hlog => h pre e' (post ++ [e]) ?_, h log e [] rfl⟩
    rw [hlog, List.append_assoc, List.cons_append]
  · rintro ⟨hlog, he⟩ pre e' post h
    rcases List.eq_nil_or_concat post with rfl | ⟨init, last, rfl⟩
    · obtain ⟨rfl, htail⟩ := List.append_inj' h rfl
      obtain rfl := (List.cons.inj htail).1
      exact he
    · rw [List.concat_eq_append, ← List.cons_append, ← List.append_assoc] at h
      obtain ⟨rfl, -⟩ := List.append_inj' h rfl
      exact hlog pre e' init rfl

/-- Entries that are allowed anywhere change nothing. -/
theorem each_append_iff {log more : List ε} (h : ∀ e ∈ more, ∀ pre, G pre e) :
    Each G (log ++ more) ↔ Each G log := by
  induction more using List.reverseRecOn with
  | nil => rw [List.append_nil]
  | append_singleton more e ih =>
    have hmore := ih fun e' he' => h e' (List.mem_append_left _ he')
    rw [← List.append_assoc, each_concat, hmore]
    exact and_iff_left (h e (by simp) _)

end Logged
