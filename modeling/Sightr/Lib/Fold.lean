import Mathlib.Data.List.Basic

/-!
# Folds that may fail

A log is replayed by a fold in `Except`: the first entry that fails ends it. These are the rules by
which a fact about one entry becomes a fact about a whole log.

## Main results

* `Except.bind_eq_ok`: a computation that succeeded did so step by step.
* `Fold.foldlM_append_eq_ok`: a log succeeds piece by piece.
* `Fold.foldlM_invariant`: what every entry preserves, the whole log preserves.
* `Fold.traceM`: a fold that also collects what each
  entry emits, with its own invariant rule.
* `Fold.Along`: a condition on every entry in the state it finds.
* `Fold.Blocks`: lists made of blocks.
-/

universe u

/-- A bind that succeeded ran both of its halves. -/
theorem Except.bind_eq_ok {ε : Type*} {α β : Type u} {x : Except ε α} {f : α → Except ε β} {b : β} :
    x >>= f = .ok b ↔ ∃ a, x = .ok a ∧ f a = .ok b := by
  cases x with
  | error e =>
    constructor
    · intro h
      cases h
    · rintro ⟨a, ha, -⟩
      cases ha
  | ok a =>
    constructor
    · intro h
      exact ⟨a, rfl, h⟩
    · rintro ⟨a', ha, h⟩
      cases ha
      exact h

namespace Fold

variable {ε α β γ : Type*} {σ τ : Type u}

variable {s s' : σ}

variable {step : σ → α → Except ε σ}

variable {l : List α}

theorem foldlM_cons_eq_ok {a : α} :
    (a :: l).foldlM step s = .ok s' ↔ ∃ m, step s a = .ok m ∧ l.foldlM step m = .ok s' := by
  rw [List.foldlM_cons, Except.bind_eq_ok]

/-- A log succeeds when its first part does and the rest succeeds from there. -/
theorem foldlM_append_eq_ok {l l' : List α} : (l ++ l').foldlM step s = .ok s' ↔
      ∃ m, l.foldlM step s = .ok m ∧ l'.foldlM step m = .ok s' := by
  rw [List.foldlM_append, Except.bind_eq_ok]

/-- What every accepted entry preserves, an accepted log preserves. -/
theorem foldlM_invariant {P : σ → Prop} (hstep : ∀ s a s', P s → step s a = .ok s' → P s')
    {l : List α} (hs : P s) (h : l.foldlM step s = .ok s') : P s' := by
  induction l generalizing s with
  | nil =>
    cases h
    exact hs
  | cons a l ih =>
    obtain ⟨m, hm, hl⟩ := foldlM_cons_eq_ok.mp h
    exact ih (hstep s a m hs hm) hl

/-! ### Folds that collect what each entry emits -/

/-- Run `step` over the entries and collect what each one emits, or fail where one fails. -/
def traceM (step : σ → α → Except ε (σ × β)) : σ → List α → Except ε (σ × List β)
  | s, [] => .ok (s, [])
  | s, a :: l =>
    match step s a with
    | .error e => .error e
    | .ok (m, b) =>
      match traceM step m l with
      | .error e => .error e
      | .ok (s', bs) => .ok (s', b :: bs)

@[simp] theorem traceM_nil (step : σ → α → Except ε (σ × β)) (s : σ) : traceM step s [] = .ok (s, []) := rfl

variable {step : σ → α → Except ε (σ × β)}

theorem traceM_cons_eq_ok {a : α} {out : List β} : traceM step s (a :: l) = .ok (s', out) ↔
      ∃ m b bs, step s a = .ok (m, b) ∧ traceM step m l = .ok (s', bs) ∧ out = b :: bs := by
  constructor
  · intro h
    cases hm : step s a with
    | error e =>
      simp only [traceM, hm] at h
      cases h
    | ok r =>
      obtain ⟨m, b⟩ := r
      cases hl : traceM step m l with
      | error e =>
        simp only [traceM, hm, hl] at h
        cases h
      | ok q =>
        obtain ⟨t, bs⟩ := q
        simp only [traceM, hm, hl] at h
        cases h
        exact ⟨m, b, bs, rfl, hl, rfl⟩
  · rintro ⟨m, b, bs, hm, hl, rfl⟩
    simp only [traceM, hm, hl]

/-- A collecting fold over two logs in a row. -/
theorem traceM_append_eq_ok {l l' : List α} {out : List β} : traceM step s (l ++ l') = .ok (s', out) ↔
      ∃ m bs bs', traceM step s l = .ok (m, bs) ∧ traceM step m l' = .ok (s', bs') ∧ out = bs ++ bs' := by
  induction l generalizing s out with
  | nil =>
    constructor
    · intro h
      exact ⟨s, [], out, rfl, h, rfl⟩
    · rintro ⟨m, bs, bs', hm, hl, rfl⟩
      cases hm
      exact hl
  | cons a l ih =>
    rw [List.cons_append, traceM_cons_eq_ok]
    constructor
    · rintro ⟨m, b, rest, hm, hl, rfl⟩
      obtain ⟨k, bs, bs', hk, hl', rfl⟩ := ih.mp hl
      exact ⟨k, b :: bs, bs', traceM_cons_eq_ok.mpr ⟨m, b, bs, hm, hk, rfl⟩, hl', rfl⟩
    · rintro ⟨k, out', bs', hk, hl', rfl⟩
      obtain ⟨m, b, bs, hm, hl, rfl⟩ := traceM_cons_eq_ok.mp hk
      exact ⟨m, b, bs ++ bs', hm, ih.mpr ⟨k, bs, bs', hl, hl', rfl⟩, rfl⟩

/-- Every entry meets `C` in the state it finds. -/
def Along (step : σ → α → Except ε (σ × β)) (C : σ → α → Prop) : σ → List α → Prop
  | _, [] => True
  | s, a :: l => C s a ∧ ∀ m b, step s a = .ok (m, b) → Along step C m l

instance Along.decidable {step : σ → α → Except ε (σ × β)} {C : σ → α → Prop}
    [∀ s a, Decidable (C s a)] : ∀ (s : σ) (l : List α), Decidable (Along step C s l)
  | _, [] => .isTrue trivial
  | s, a :: l =>
    match hm : step s a with
    | .error _ => decidable_of_iff (C s a) ⟨fun h => ⟨h, fun m b h' => by simp [hm] at h'⟩, And.left⟩
    | .ok (m, b) =>
      have := (Along.decidable m l : Decidable (Along step C m l))
      decidable_of_iff (C s a ∧ Along step C m l)
        ⟨fun h => ⟨h.1, fun m' b' h' => by cases hm.symm.trans h'; exact h.2⟩, fun h => ⟨h.1, h.2 m b hm⟩⟩

theorem along_of_forall {C : σ → α → Prop} (h : ∀ s, ∀ a ∈ l, C s a) : Along step C s l := by
  induction l generalizing s with
  | nil => trivial
  | cons a l ih =>
    exact ⟨h s a (by simp), fun m b _ => ih fun s' a' ha' => h s' a' (by simp [ha'])⟩

theorem Along.imp {C D : σ → α → Prop} (hCD : ∀ s a, C s a → D s a) (h : Along step C s l) : Along step D s l := by
  induction l generalizing s with
  | nil => trivial
  | cons a l ih => exact ⟨hCD s a h.1, fun m b hm => ih (h.2 m b hm)⟩

theorem Along.and {C D : σ → α → Prop} (hC : Along step C s l)
    (hD : Along step D s l) : Along step (fun s a => C s a ∧ D s a) s l := by
  induction l generalizing s with
  | nil => trivial
  | cons a l ih =>
    exact ⟨⟨hC.1, hD.1⟩, fun m b hm => ih (hC.2 m b hm) (hD.2 m b hm)⟩

/-- What an entry that meets `C` preserves, of the state and of what was emitted so far, a log whose
entries all meet `C` preserves. -/
theorem traceM_invariant {C : σ → α → Prop} {P : σ → List β → Prop}
    (hstep : ∀ s sofar a m b, P s sofar → C s a → step s a = .ok (m, b) → P m (sofar ++ [b])) {l : List α}
    {w out : List β} (hP : P s w) (hC : Along step C s l) (h : traceM step s l = .ok (s', out)) :
    P s' (w ++ out) := by
  induction l generalizing s w out with
  | nil =>
    cases h
    rw [List.append_nil]
    exact hP
  | cons a l ih =>
    obtain ⟨m, b, bs, hm, hl, rfl⟩ := traceM_cons_eq_ok.mp h
    have hnext := ih (hstep s w a m b hP hC.1 hm) (hC.2 m b hm) hl
    rwa [List.append_assoc, List.singleton_append] at hnext

section

variable {step : σ → α → Except ε (σ × β)} {C : σ → α → Prop} {I Q R : σ → Prop} {s : σ} {l l' : List α}

end

/-! ### Lists made of blocks -/

/-- The list is made of blocks, one after another, that each satisfy `P`. -/
def Blocks (P : List α → Prop) (l : List α) : Prop :=
  ∃ blocks : List (List α), (∀ b ∈ blocks, P b) ∧ blocks.flatten = l

variable {P : List α → Prop}

theorem Blocks.nil : Blocks P [] := ⟨[], by simp, rfl⟩

theorem Blocks.of {b : List α} (h : P b) : Blocks P b := ⟨[b], by simpa using h, by simp⟩

theorem Blocks.append {l l' : List α} (h : Blocks P l) (h' : Blocks P l') : Blocks P (l ++ l') := by
  obtain ⟨blocks, hblocks, rfl⟩ := h
  obtain ⟨blocks', hblocks', rfl⟩ := h'
  exact ⟨blocks ++ blocks', List.forall_mem_append.mpr ⟨hblocks, hblocks'⟩, List.flatten_append⟩

theorem Blocks.flatMap {l : List γ} {f : γ → List α} (h : ∀ c ∈ l, Blocks P (f c)) : Blocks P (l.flatMap f) := by
  induction l with
  | nil => exact .nil
  | cons c l ih =>
    rw [List.flatMap_cons]
    exact (h c (by simp)).append (ih fun d hd => h d (by simp [hd]))

theorem Blocks.of_forall {l : List α} (h : ∀ a ∈ l, P [a]) : Blocks P l := by
  induction l with
  | nil => exact .nil
  | cons a l ih => exact Blocks.append (.of (h a (by simp))) (ih fun b hb => h b (by simp [hb]))

/-- What holds of the entries of every block, holds of every entry. -/
theorem Blocks.forall_mem {Q : α → Prop} {l : List α} (hPQ : ∀ b, P b → ∀ a ∈ b, Q a)
    (h : Blocks P l) : ∀ a ∈ l, Q a := by
  obtain ⟨blocks, hblocks, rfl⟩ := h
  intro a ha
  obtain ⟨b, hb, hab⟩ := List.mem_flatten.mp ha
  exact hPQ b (hblocks b hb) a hab

end Fold
