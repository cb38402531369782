import Mathlib.Data.List.Nodup

/-!
# Keyed tables

A table is a list of rows in insertion order, no two of which share a key. The list order is
observable (a query without a total `ORDER BY` returns it), so a replaced row keeps its place and a
new row goes last, as a database with hidden row numbers does.

## Main definitions

* `Keyed.Table`: rows with pairwise distinct keys.
* `Keyed.Table.find?`, `Keyed.Table.insert?`, `Keyed.Table.set`, `Keyed.Table.filter`, `Keyed.Table.modify`: lookup
  by key, insertion that refuses a key in use, upsert, deletion of the rows that fail a test, and a change of rows.

## Main results

* `Keyed.Table.find?_set`, `Keyed.Table.find?_insert?`, `Keyed.Table.find?_filter`: what a lookup
  sees after each operation.
* `Keyed.Table.mem_rows_iff`: membership is lookup.
* `Keyed.Table.find?_ofList`: a table built from rows with distinct keys finds those rows.
-/

namespace Keyed

/-- Rows in insertion order with pairwise distinct keys. -/
@[ext] structure Table {κ ρ : Type*} (key : ρ → κ) where
  /-- The rows, oldest first. -/
  rows : List ρ
  nodup : (rows.map key).Nodup

namespace Table

variable {κ ρ : Type*} {key : ρ → κ}

instance [DecidableEq ρ] : DecidableEq (Table key) := fun s t =>
  decidable_of_iff (s.rows = t.rows) Table.ext_iff.symm

def empty : Table key := ⟨[], List.nodup_nil⟩

@[simp] theorem rows_empty : (empty : Table key).rows = [] := rfl

/-- Two rows of a table with one key are the same row. -/
theorem eq_of_key_eq (t : Table key) {r s : ρ} (hr : r ∈ t.rows) (hs : s ∈ t.rows) (h : key r = key s) : r = s :=
  List.inj_on_of_nodup_map t.nodup hr hs h

def filter (t : Table key) (p : ρ → Bool) : Table key :=
  ⟨t.rows.filter p, t.nodup.sublist (List.filter_sublist.map key)⟩

@[simp] theorem rows_filter (t : Table key) (p : ρ → Bool) : (t.filter p).rows = t.rows.filter p := rfl

/-- The rows, each changed by a function that keeps its key. -/
def modify (t : Table key) (f : ρ → ρ) (h : ∀ r, key (f r) = key r) : Table key :=
  ⟨t.rows.map f, by
    rw [List.map_map, show key ∘ f = key from funext h]
    exact t.nodup⟩

section Lookup

variable [DecidableEq κ]

def find? (t : Table key) (k : κ) : Option ρ := t.rows.find? fun r => decide (key r = k)

def has (t : Table key) (k : κ) : Bool := (t.find? k).isSome

@[simp] theorem find?_empty (k : κ) : (empty : Table key).find? k = none := rfl

variable {t : Table key} {k : κ} {r : ρ}

theorem key_of_find? (h : t.find? k = some r) : key r = k := by
  simpa using List.find?_some h

theorem mem_of_find? (h : t.find? k = some r) : r ∈ t.rows := List.mem_of_find?_eq_some h

/-- A row of the table is what a lookup of its key returns. -/
theorem find?_key (h : r ∈ t.rows) : t.find? (key r) = some r := by
  cases hf : t.find? (key r) with
  | none =>
    have hne := List.find?_eq_none.mp hf r h
    simp at hne
  | some s => rw [t.eq_of_key_eq (mem_of_find? hf) h (key_of_find? hf)]

theorem find?_eq_some_iff : t.find? k = some r ↔ r ∈ t.rows ∧ key r = k := by
  constructor
  · intro h
    exact ⟨mem_of_find? h, key_of_find? h⟩
  · rintro ⟨hr, rfl⟩
    exact find?_key hr

theorem find?_eq_none_iff : t.find? k = none ↔ ∀ r ∈ t.rows, key r ≠ k := by
  simp [find?, List.find?_eq_none]

theorem mem_rows_iff : r ∈ t.rows ↔ t.find? (key r) = some r := ⟨find?_key, mem_of_find?⟩

theorem has_iff : t.has k = true ↔ ∃ r ∈ t.rows, key r = k := by
  rw [has, Option.isSome_iff_exists]
  exact exists_congr fun r => find?_eq_some_iff

/-- A lookup after a deletion sees the old row when it passed the test. -/
theorem find?_filter (t : Table key) (p : ρ → Bool) (k : κ) : (t.filter p).find? k = (t.find? k).filter p := by
  cases hf : t.find? k with
  | none =>
    rw [Option.filter_none, find?_eq_none_iff]
    intro r hr
    exact find?_eq_none_iff.mp hf r (List.mem_of_mem_filter hr)
  | some r =>
    obtain ⟨hr, rfl⟩ := find?_eq_some_iff.mp hf
    by_cases hp : p r = true
    · rw [Option.filter_some_pos hp, find?_eq_some_iff]
      exact ⟨List.mem_filter.mpr ⟨hr, hp⟩, rfl⟩
    · rw [Option.filter_some_neg (by simpa using hp), find?_eq_none_iff]
      intro s hs hk
      obtain ⟨hs, hps⟩ := List.mem_filter.mp hs
      exact hp (t.eq_of_key_eq hs hr hk ▸ hps)

/-! ### Insertion -/

/-- The table with `r` added last, when no row holds `r`'s key. -/
def insert? (t : Table key) (r : ρ) : Option (Table key) :=
  if h : key r ∈ t.rows.map key then none
  else some ⟨t.rows ++ [r], by
    rw [List.map_append, List.nodup_append]
    refine ⟨t.nodup, by simp, ?_⟩
    rintro a ha b hb rfl
    exact h (by simpa [List.mem_singleton.mp hb] using ha)⟩

variable {t' : Table key}

theorem insert?_eq_some_iff : t.insert? r = some t' ↔ key r ∉ t.rows.map key ∧ t'.rows = t.rows ++ [r] := by
  unfold insert?
  split_ifs with h
  · simp [h]
  · simp only [Option.some.injEq, h, not_false_eq_true, true_and, Table.ext_iff]
    exact eq_comm

theorem rows_of_insert? (h : t.insert? r = some t') : t'.rows = t.rows ++ [r] := (insert?_eq_some_iff.mp h).2

theorem find?_insert? (h : t.insert? r = some t') (k : κ) :
    t'.find? k = if key r = k then some r else t.find? k := by
  obtain ⟨hnew, hrows⟩ := insert?_eq_some_iff.mp h
  have hmem : ∀ s, s ∈ t'.rows ↔ s ∈ t.rows ∨ s = r := by simp [hrows]
  split_ifs with hk
  · exact find?_eq_some_iff.mpr ⟨(hmem r).mpr (.inr rfl), hk⟩
  · cases hf : t.find? k with
    | none =>
      rw [find?_eq_none_iff]
      intro s hs
      rcases (hmem s).mp hs with hs | rfl
      · exact find?_eq_none_iff.mp hf s hs
      · exact hk
    | some s =>
      obtain ⟨hs, hks⟩ := find?_eq_some_iff.mp hf
      exact find?_eq_some_iff.mpr ⟨(hmem s).mpr (.inl hs), hks⟩

/-! ### Upsert -/

/-- Replace the row with `r`'s key in place, or add `r` last. -/
def set (t : Table key) (r : ρ) : Table key :=
  if h : key r ∈ t.rows.map key then
    ⟨t.rows.map fun s => if key s = key r then r else s, by
      have hkeys : (t.rows.map fun s => if key s = key r then r else s).map key = t.rows.map key := by
        rw [List.map_map]
        refine List.map_congr_left fun s _ => ?_
        simp only [Function.comp_apply]
        split_ifs with hs
        · exact hs.symm
        · rfl
      exact hkeys ▸ t.nodup⟩
  else ⟨t.rows ++ [r], by
    rw [List.map_append, List.nodup_append]
    refine ⟨t.nodup, by simp, ?_⟩
    rintro a ha b hb rfl
    exact h (by simpa [List.mem_singleton.mp hb] using ha)⟩

variable {s : ρ}

/-- The rows after an upsert: the new row, and the old ones under other keys. -/
theorem mem_set : s ∈ (t.set r).rows ↔ s = r ∨ s ∈ t.rows ∧ key s ≠ key r := by
  unfold set
  split_ifs with h
  · simp only [List.mem_map]
    constructor
    · rintro ⟨u, hu, rfl⟩
      split_ifs with hk
      · exact .inl rfl
      · exact .inr ⟨hu, hk⟩
    · rintro (rfl | ⟨hs, hk⟩)
      · obtain ⟨u, hu, huk⟩ := List.mem_map.mp h
        exact ⟨u, hu, by rw [if_pos huk]⟩
      · exact ⟨s, hs, by rw [if_neg hk]⟩
  · simp only [List.mem_append, List.mem_singleton]
    constructor
    · rintro (hs | rfl)
      · exact .inr ⟨hs, fun hk => h (List.mem_map.mpr ⟨s, hs, hk⟩)⟩
      · exact .inl rfl
    · rintro (rfl | ⟨hs, -⟩)
      · exact .inr rfl
      · exact .inl hs

/-- A lookup after an upsert sees the new row at its key and the old table elsewhere. -/
theorem find?_set (t : Table key) (r : ρ) (k : κ) :
    (t.set r).find? k = if key r = k then some r else t.find? k := by
  split_ifs with hk
  · exact find?_eq_some_iff.mpr ⟨mem_set.mpr (.inl rfl), hk⟩
  · cases hf : t.find? k with
    | none =>
      rw [find?_eq_none_iff]
      intro s hs
      rcases mem_set.mp hs with rfl | ⟨hs, -⟩
      · exact hk
      · exact find?_eq_none_iff.mp hf s hs
    | some s =>
      obtain ⟨hs, rfl⟩ := find?_eq_some_iff.mp hf
      exact find?_eq_some_iff.mpr ⟨mem_set.mpr (.inr ⟨hs, Ne.symm hk⟩), rfl⟩

@[simp] theorem find?_set_self (t : Table key) (r : ρ) : (t.set r).find? (key r) = some r := by
  rw [find?_set, if_pos rfl]

theorem find?_set_of_ne (t : Table key) (h : key r ≠ k) : (t.set r).find? k = t.find? k := by
  rw [find?_set, if_neg h]

/-- A row under a new key is added last. -/
theorem rows_set_of_find?_eq_none (h : t.find? (key r) = none) : (t.set r).rows = t.rows ++ [r] := by
  have hk : ¬ key r ∈ t.rows.map key := by
    intro hk
    obtain ⟨s, hs, hsk⟩ := List.mem_map.mp hk
    exact find?_eq_none_iff.mp h s hs hsk
  rw [set, dif_neg hk]

theorem length_rows_set (t : Table key) (r : ρ) :
    (t.set r).rows.length = if t.has (key r) = true then t.rows.length else t.rows.length + 1 := by
  split_ifs with hhas
  · obtain ⟨s, hs, hsk⟩ := has_iff.mp hhas
    rw [set, dif_pos (List.mem_map.mpr ⟨s, hs, hsk⟩), List.length_map]
  · have hnone : t.find? (key r) = none := by
      rw [has, Option.not_isSome_iff_eq_none] at hhas
      exact hhas
    rw [rows_set_of_find?_eq_none hnone, List.length_append, List.length_singleton]

/-! ### Filling in -/

/-- Add the row, unless its key is there. -/
def fill (t : Table key) (r : ρ) : Table key := if t.has (key r) then t else t.set r

/-- A lookup after filling rows in sees the table first, then the first row under the key. -/
theorem find?_foldl_fill (l : List ρ) (t : Table key) (k : κ) :
    (l.foldl fill t).find? k = (t.find? k).or (l.find? fun r => decide (key r = k)) := by
  induction l generalizing t with
  | nil => simp
  | cons r l ih =>
    rw [List.foldl_cons, ih, fill]
    by_cases hk : key r = k
    · subst hk
      by_cases hhas : t.has (key r) = true
      · obtain ⟨s, hs⟩ := Option.isSome_iff_exists.mp hhas
        simp [hhas, hs]
      · have hnone : t.find? (key r) = none := by simpa [has] using hhas
        simp [hhas, hnone]
    · split_ifs
      · simp [hk]
      · simp [hk, find?_set_of_ne t hk]

/-! ### Tables from lists -/

/-- The table of a list's rows; of two rows with one key the later one stays. -/
def ofList (l : List ρ) : Table key := l.foldl set empty

variable {l : List ρ}

section

variable (hnodup : (l.map key).Nodup)
include hnodup

theorem mem_foldl_set (hnew : ∀ r ∈ l, ∀ s ∈ t.rows, key s ≠ key r) :
    s ∈ (l.foldl set t).rows ↔ s ∈ t.rows ∨ s ∈ l := by
  induction l generalizing t with
  | nil => simp
  | cons r l ih =>
    rw [List.map_cons, List.nodup_cons] at hnodup
    have hl : ∀ u ∈ l, key r ≠ key u := fun u hu hk =>
      hnodup.1 (List.mem_map.mpr ⟨u, hu, hk.symm⟩)
    have hnew' : ∀ u ∈ l, ∀ v ∈ (t.set r).rows, key v ≠ key u := by
      intro u hu v hv
      rcases mem_set.mp hv with rfl | ⟨hv, -⟩
      · exact hl u hu
      · exact hnew u (List.mem_cons_of_mem r hu) v hv
    rw [List.foldl_cons, ih hnodup.2 hnew', mem_set, List.mem_cons]
    constructor
    · rintro ((rfl | ⟨hs, -⟩) | hs)
      · exact .inr (.inl rfl)
      · exact .inl hs
      · exact .inr (.inr hs)
    · rintro (hs | rfl | hs)
      · exact .inl (.inr ⟨hs, hnew r (by simp) s hs⟩)
      · exact .inl (.inl rfl)
      · exact .inr hs

/-- A lookup after upserts under distinct keys sees the new rows first, then the table. -/
theorem find?_foldl_set (t : Table key) (k : κ) :
    (l.foldl set t).find? k = (l.find? fun r => decide (key r = k)).or (t.find? k) := by
  induction l generalizing t with
  | nil => simp
  | cons r l ih =>
    rw [List.map_cons, List.nodup_cons] at hnodup
    rw [List.foldl_cons, ih hnodup.2]
    by_cases hk : key r = k
    · subst hk
      have hnone : l.find? (fun s => decide (key s = key r)) = none := by
        rw [List.find?_eq_none]
        intro s hs hsk
        exact hnodup.1 (List.mem_map.mpr ⟨s, hs, of_decide_eq_true hsk⟩)
      simp [hnone]
    · simp [hk, find?_set_of_ne t hk]

/-- A table of rows with distinct keys has those rows. -/
theorem mem_ofList : s ∈ (ofList l : Table key).rows ↔ s ∈ l := by
  rw [ofList, mem_foldl_set hnodup (by simp)]
  simp

theorem find?_ofList : (ofList l : Table key).find? k = some r ↔ r ∈ l ∧ key r = k := by
  rw [find?_eq_some_iff, mem_ofList hnodup]

end

end Lookup

end Table

end Keyed
