import Mathlib.Data.List.Basic

/-!
# A log read in windows

A reader goes over the rows of a log with a state and gives some rows an entry. It may start at any row, with
its first state: a window. A row's name in a window is made of its key and of a number, how often the window
drew the key before.

## Main definitions

* `Windows.entries`, `Windows.entryAt`: the entries of a log, and the entry a row gets in a window.
* `Windows.Stable`: a row has one name in all windows, and no two rows share one.

## Main results

* `Windows.entries_drop`: the entries of a window are those of its rows.
* `Windows.stable_iff`: names are stable exactly when no key is drawn before a row that shows it, and no two
  rows that get a name have the same key.
-/

namespace Windows

/-! ### Reading from a row on -/

section Reading

variable {σ ρ ε : Type*} (step : σ → ρ → σ × Option ε) (s : σ)

def after (rows : List ρ) : σ := rows.foldl (fun s r => (step s r).1) s

def entries (s : σ) : List ρ → List ε
  | [] => []
  | r :: rows => (step s r).2.toList ++ entries (step s r).1 rows

/-- The entry row `i` gets when the log is read from row `a` on. -/
def entryAt (rows : List ρ) (a i : Nat) : Option ε :=
  if a ≤ i then rows[i]?.bind fun r => (step (after step s ((rows.take i).drop a)) r).2 else none

variable {step s}

@[simp]
theorem after_nil : after step s [] = s := rfl

@[simp]
theorem after_cons (r : ρ) (rows : List ρ) : after step s (r :: rows) = after step (step s r).1 rows := rfl

theorem after_append (rows more : List ρ) : after step s (rows ++ more) = after step (after step s rows) more :=
  List.foldl_append

theorem after_concat (rows : List ρ) (r : ρ) : after step s (rows ++ [r]) = (step (after step s rows) r).1 := by
  simp [after]

variable {rows : List ρ} {a i : Nat}

theorem entryAt_eq_some {e : ε} : entryAt step s rows a i = some e ↔
      a ≤ i ∧ ∃ r, rows[i]? = some r ∧ (step (after step s ((rows.take i).drop a)) r).2 = some e := by
  by_cases hai : a ≤ i
  · simp [entryAt, hai, Option.bind_eq_some_iff]
  · simp [entryAt, hai]

theorem entries_eq (rows : List ρ) : entries step s rows = (List.range rows.length).filterMap fun i =>
      rows[i]?.bind fun r => (step (after step s (rows.take i)) r).2 := by
  induction rows generalizing s with
  | nil => rfl
  | cons r rows ih =>
    rw [List.length_cons, List.range_succ_eq_map, List.filterMap_cons, List.filterMap_map, entries, ih]
    cases hfirst : (step s r).2 with
    | none => simp [hfirst, Function.comp_def]
    | some e => simp [hfirst, Function.comp_def]

theorem entries_drop (rows : List ρ) (a : Nat) : entries step s (rows.drop a) =
      (List.range (rows.length - a)).filterMap fun i => entryAt step s rows a (a + i) := by
  rw [entries_eq, List.length_drop]
  refine List.filterMap_congr fun i _ => ?_
  rw [entryAt, if_pos (Nat.le_add_right a i), List.getElem?_drop, List.drop_take, Nat.add_sub_cancel_left]

@[simp]
theorem after_of_le (h : i ≤ a) : after step s ((rows.take i).drop a) = s := by
  rw [List.drop_of_length_le (by rw [List.length_take]; omega), after_nil]

theorem after_succ {r : ρ} (h : a ≤ i) (hr : rows[i]? = some r) :
    after step s ((rows.take (i + 1)).drop a) = (step (after step s ((rows.take i).drop a)) r).1 := by
  rw [List.take_add_one, hr, Option.toList_some, List.drop_append_of_le_length, after_concat]
  obtain ⟨hi, -⟩ := List.getElem?_eq_some_iff.mp hr
  rw [List.length_take]
  omega

theorem after_succ_of_none (hr : rows[i]? = none) :
    after step s ((rows.take (i + 1)).drop a) = after step s ((rows.take i).drop a) := by
  rw [List.take_add_one, hr, Option.toList_none, List.append_nil]

/-- What a state collects row by row, it has collected from the rows between. -/
theorem mem_after {α : Type*} (get : σ → List α) (add : σ → ρ → List α) (hget : get s = [])
    (hstep : ∀ s r, get (step s r).1 = add s r ++ get s) {x : α} :
    x ∈ get (after step s ((rows.take i).drop a)) ↔
      ∃ j r, a ≤ j ∧ j < i ∧ rows[j]? = some r ∧ x ∈ add (after step s ((rows.take j).drop a)) r := by
  induction i with
  | zero => simp [hget]
  | succ i ih =>
    rcases Nat.lt_or_ge i a with hia | hai
    · rw [after_of_le hia, hget]
      simp only [List.not_mem_nil, false_iff, not_exists, not_and]
      omega
    · cases hr : rows[i]? with
      | none =>
        rw [after_succ_of_none hr, ih]
        constructor
        · rintro ⟨j, r, haj, hji, hrj, hx⟩
          exact ⟨j, r, haj, Nat.lt_succ_of_lt hji, hrj, hx⟩
        · rintro ⟨j, r, haj, hji, hrj, hx⟩
          have hne : j ≠ i := by rintro rfl; simp [hr] at hrj
          exact ⟨j, r, haj, by omega, hrj, hx⟩
      | some r =>
        rw [after_succ hai hr, hstep, List.mem_append, ih]
        constructor
        · rintro (hx | ⟨j, r, haj, hji, hrj, hx⟩)
          · exact ⟨i, r, hai, Nat.lt_succ_self i, hr, hx⟩
          · exact ⟨j, r, haj, Nat.lt_succ_of_lt hji, hrj, hx⟩
        · rintro ⟨j, r', haj, hji, hrj, hx⟩
          rcases Nat.lt_succ_iff_lt_or_eq.mp hji with hlt | rfl
          · exact .inr ⟨j, r', haj, hlt, hrj, hx⟩
          · obtain rfl := Option.some.inj (hr.symm.trans hrj)
            exact .inl hx

end Reading

/-! ### Names -/

section Names

variable {κ ι : Type*}

/-- Windows agree on a row's name, and a name is one row's. The first argument is the window's first row. -/
def Stable (name : Nat → Nat → Option ι) : Prop :=
  (∀ a b i u v, name a i = some u → name b i = some v → u = v) ∧
    ∀ a b i j u, name a i = some u → name b j = some u → i = j

/-- Names are stable exactly when the rows that get one have different keys, and no key of theirs is drawn
before them in a window where they get one. -/
theorem stable_iff (name : Nat → Nat → Option ι) (key : Nat → κ) (draws : Nat → Nat → Prop)
    (number : Nat → Nat → Nat) (render : κ → Nat → ι)
    (hname : ∀ a i u, name a i = some u → a ≤ i ∧ u = render (key i) (number a i))
    (hlater : ∀ a b i, a ≤ b → b ≤ i → (name a i).isSome → (name b i).isSome)
    (hdraws : ∀ a b j, a ≤ b → b ≤ j → draws a j → draws b j)
    (hnumber : ∀ a i, number a i = 0 ↔ ∀ j, a ≤ j → j < i → draws a j → key j ≠ key i)
    (hrender : ∀ k k', render k 0 = render k' 0 → k = k') (hfirst : ∀ k n, render k (n + 1) ≠ render k 0) :
    Stable name ↔ ∀ j i, j < i → key j = key i →
      ¬ ((name j j).isSome ∧ (name i i).isSome) ∧ ¬ (draws j j ∧ (name j i).isSome) := by
  have hown {i : Nat} {u : ι} (h : name i i = some u) : u = render (key i) 0 := by
    obtain ⟨-, rfl⟩ := hname i i u h
    rw [(hnumber i i).mpr fun j hij hji => absurd hij (Nat.not_le.mpr hji)]
  constructor
  · rintro ⟨hagree, hapart⟩ j i hji hkey
    constructor
    · rintro ⟨hj, hi⟩
      obtain ⟨u, hu⟩ := Option.isSome_iff_exists.mp hj
      obtain ⟨v, hv⟩ := Option.isSome_iff_exists.mp hi
      obtain rfl : u = v := by rw [hown hu, hown hv, hkey]
      exact (Nat.ne_of_lt hji) (hapart j i j i u hu hv)
    · rintro ⟨hdraw, hi⟩
      obtain ⟨u, hu⟩ := Option.isSome_iff_exists.mp hi
      obtain ⟨v, hv⟩ := Option.isSome_iff_exists.mp (hlater j i i (Nat.le_of_lt hji) (Nat.le_refl _) hi)
      obtain ⟨-, hun⟩ := hname j i u hu
      have hzero : number j i ≠ 0 := fun h => (hnumber j i).mp h j (Nat.le_refl _) hji hdraw hkey
      obtain ⟨n, hn⟩ := Nat.exists_eq_succ_of_ne_zero hzero
      rw [hagree j i i u v hu hv, hown hv, hn] at hun
      exact hfirst (key i) n hun.symm
  · intro h
    -- the number of a name is always 0
    have hzero {a i : Nat} {u : ι} (hu : name a i = some u) : u = render (key i) 0 := by
      obtain ⟨-, hun⟩ := hname a i u hu
      have hn : number a i = 0 := (hnumber a i).mpr fun j haj hji hdraw hkey =>
        (h j i hji hkey).2 ⟨hdraws a j j haj (Nat.le_refl _) hdraw, hlater a j i haj (Nat.le_of_lt hji)
      (by rw [hu]; rfl)⟩
      rw [hun, hn]
    have hself {a i : Nat} {u : ι} (hu : name a i = some u) : (name i i).isSome :=
      hlater a i i (hname a i u hu).1 (Nat.le_refl _) (by rw [hu]; rfl)
    refine ⟨fun a b i u v hu hv => by rw [hzero hu, hzero hv], fun a b i j u hu hv => ?_⟩
    have hkey : key i = key j := hrender _ _ ((hzero hu).symm.trans (hzero hv))
    rcases Nat.lt_trichotomy i j with hij | hij | hij
    · exact absurd ⟨hself hu, hself hv⟩ (h i j hij hkey).1
    · exact hij
    · exact absurd ⟨hself hv, hself hu⟩ (h j i hij hkey.symm).1

end Names

end Windows
