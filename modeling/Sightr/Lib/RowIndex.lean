import Mathlib.Order.Lattice
import Sightr.Lib.Table

/-!
# An index kept by triggers

A table has a second one beside it, with an entry for some of its rows. An entry carries the number of its row, and
three triggers keep it: a row that is new gets the next number and its entry, a row that changes has its entry
written again, and a row that goes takes its number and the entries under that number along.

## Main definitions

* `Keyed.RowIndex`: the numbers of the rows and the entries.
* `Keyed.RowIndex.follow`: what the triggers do when the table changes.

## Main results

* `Keyed.RowIndex.Sound.follow`: the numbers stay those of the rows, each row has its own, and an entry is of the row
  whose number it has.
* `Keyed.RowIndex.Sound.mem_follow_filter`: where rows only go, exactly their entries go.
-/

namespace Keyed

/-- An entry: what is kept of the row with this number. -/
structure RowIndex.Entry (κ τ : Type*) where
  rowid : Nat
  key : κ
  text : τ
  deriving DecidableEq

structure RowIndex (κ τ : Type*) where
  /-- The number of each row. -/
  rowids : Table (Prod.fst : κ × Nat → κ)
  entries : List (RowIndex.Entry κ τ)

namespace RowIndex

variable {κ τ ρ : Type*} [DecidableEq κ] (ix : RowIndex κ τ)

def empty : RowIndex κ τ := ⟨.empty, []⟩

/-- One more than the highest number. -/
def next : Nat := (ix.rowids.rows.map Prod.snd).foldr max 0 + 1

variable (k : κ)

def delete : RowIndex κ τ :=
  match ix.rowids.find? k with
  | some (_, n) => ⟨ix.rowids.filter fun r => r.1 ≠ k, ix.entries.filter fun e => e.rowid ≠ n⟩
  | none => ix

def insert (text : Option τ) : RowIndex κ τ :=
  ⟨ix.rowids.set (k, ix.next), ix.entries ++ (text.map fun text => ⟨ix.next, k, text⟩).toList⟩

def update (text : Option τ) : RowIndex κ τ :=
  match ix.rowids.find? k with
  | some (_, n) =>
    { ix with entries := ix.entries.filter (fun e => e.rowid ≠ n) ++ (text.map fun text => ⟨n, k, text⟩).toList }
  | none => ix

section Triggers

variable {key : ρ → κ} (text : ρ → Option τ) (changed : ρ → ρ → Bool) (before after : Table key)

/-- The row went, or it is still there. -/
def leave (row : ρ) : RowIndex κ τ := if after.has (key row) then ix else ix.delete (key row)

/-- The row is new, or it may have changed. -/
def write (row : ρ) : RowIndex κ τ :=
  match before.find? (key row) with
  | some old => if changed old row then ix.update (key row) (text row) else ix
  | none => ix.insert (key row) (text row)

/-- The triggers of the rows that went, and then of those that changed or are new. -/
def follow : RowIndex κ τ :=
  after.rows.foldl (fun ix row => ix.write text changed before row)
    (before.rows.foldl (fun ix row => ix.leave after row) ix)

end Triggers

/-- No two rows have one number, and an entry is of the row with its number. -/
structure Sound : Prop where
  apart : ∀ a ∈ ix.rowids.rows, ∀ b ∈ ix.rowids.rows, a.2 = b.2 → a = b
  entries : ∀ e ∈ ix.entries, (e.key, e.rowid) ∈ ix.rowids.rows

variable {ix}

omit [DecidableEq κ] in
theorem Sound.empty : (empty : RowIndex κ τ).Sound where
  apart a ha := by cases ha
  entries e he := by cases he

theorem le_foldr_max {l : List Nat} {n : Nat} (h : n ∈ l) : n ≤ l.foldr max 0 := by
  induction l with
  | nil => cases h
  | cons m l ih =>
    obtain rfl | h := List.mem_cons.mp h
    · exact le_max_left ..
    · exact (ih h).trans (le_max_right ..)

omit [DecidableEq κ] in
theorem lt_next {r : κ × Nat} (h : r ∈ ix.rowids.rows) : r.2 < ix.next :=
  Nat.lt_succ_of_le (le_foldr_max (List.mem_map_of_mem h))

/-! ### One trigger -/

/-- A row that goes takes its entries along and no others. -/
theorem Sound.mem_delete (h : ix.Sound) {k : κ} {e : Entry κ τ} :
    e ∈ (ix.delete k).entries ↔ e ∈ ix.entries ∧ e.key ≠ k := by
  unfold delete
  split
  · next r n hfind =>
    obtain ⟨hmem, hkey⟩ := Table.find?_eq_some_iff.mp hfind
    obtain rfl : r = k := hkey
    simp only [List.mem_filter, decide_eq_true_eq]
    refine and_congr_right fun he => not_congr ⟨fun hn => ?_, fun hk => ?_⟩
    · exact congrArg Prod.fst (h.apart _ (h.entries e he) _ hmem hn)
    · have hsame := ix.rowids.eq_of_key_eq (h.entries e he) hmem hk
      exact congrArg Prod.snd hsame
  · next hnone =>
    refine (and_iff_left_of_imp fun he hk => ?_).symm
    exact Table.find?_eq_none_iff.mp hnone _ (h.entries e he) hk

theorem rowids_delete : (ix.delete k).rowids = ix.rowids.filter fun r => r.1 ≠ k := by
  unfold delete
  split
  · rfl
  · next hnone =>
    refine Table.ext (List.filter_eq_self.mpr fun r hr => ?_).symm
    exact decide_eq_true (Table.find?_eq_none_iff.mp hnone r hr)

theorem Sound.delete (h : ix.Sound) (k : κ) : (ix.delete k).Sound where
  apart a ha b hb := by
    rw [rowids_delete] at ha hb
    exact h.apart a (List.mem_of_mem_filter ha) b (List.mem_of_mem_filter hb)
  entries e he := by
    obtain ⟨he, hk⟩ := h.mem_delete.mp he
    rw [rowids_delete]
    exact List.mem_filter.mpr ⟨h.entries e he, decide_eq_true hk⟩

theorem has_delete (k k' : κ) : (ix.delete k).rowids.has k' = (ix.rowids.has k' && decide (k' ≠ k)) := by
  rw [rowids_delete, Bool.eq_iff_iff, Bool.and_eq_true, decide_eq_true_eq, Table.has_iff, Table.has_iff]
  constructor
  · rintro ⟨r, hr, rfl⟩
    obtain ⟨hr, hk⟩ := List.mem_filter.mp hr
    exact ⟨⟨r, hr, rfl⟩, of_decide_eq_true hk⟩
  · rintro ⟨⟨r, hr, rfl⟩, hk⟩
    exact ⟨r, List.mem_filter.mpr ⟨hr, decide_eq_true hk⟩, rfl⟩

theorem Sound.insert (h : ix.Sound) {k : κ} (hnew : ix.rowids.has k = false) (text : Option τ) :
    (ix.insert k text).Sound where
  apart a ha b hb hn := by
    obtain rfl | ⟨ha, -⟩ := Table.mem_set.mp ha
    · obtain rfl | ⟨hb, -⟩ := Table.mem_set.mp hb
      · rfl
      · exact absurd hn (lt_next hb).ne'
    · obtain rfl | ⟨hb, -⟩ := Table.mem_set.mp hb
      · exact absurd hn (lt_next ha).ne
      · exact h.apart a ha b hb hn
  entries e he := by
    obtain he | he := List.mem_append.mp he
    · refine Table.mem_set.mpr (.inr ⟨h.entries e he, fun hk => ?_⟩)
      have hhas : ix.rowids.has k = true := Table.has_iff.mpr ⟨_, h.entries e he, hk⟩
      exact Bool.false_ne_true (hnew.symm.trans hhas)
    · obtain ⟨text, -, rfl⟩ := Option.map_eq_some_iff.mp (Option.mem_toList.mp he)
      exact Table.mem_set.mpr (.inl rfl)

theorem has_insert (text : Option τ) (k' : κ) :
    (ix.insert k text).rowids.has k' = (ix.rowids.has k' || decide (k' = k)) := by
  change (ix.rowids.set (k, ix.next)).has k' = _
  rw [Table.has, Table.find?_set]
  by_cases hk : k' = k
  · simp [hk]
  · have hne : ¬k = k' := fun hsame => hk hsame.symm
    simp [hk, hne, Table.has]

theorem rowids_update (text : Option τ) : (ix.update k text).rowids = ix.rowids := by
  unfold update
  split <;> rfl

theorem Sound.update (h : ix.Sound) (k : κ) (text : Option τ) : (ix.update k text).Sound where
  apart := by
    rw [rowids_update]
    exact h.apart
  entries e he := by
    rw [rowids_update]
    unfold RowIndex.update at he
    split at he
    · next r n hfind =>
      obtain ⟨hmem, hkey⟩ := Table.find?_eq_some_iff.mp hfind
      obtain rfl : r = k := hkey
      obtain he | he := List.mem_append.mp he
      · exact h.entries e (List.mem_of_mem_filter he)
      · obtain ⟨text, -, rfl⟩ := Option.map_eq_some_iff.mp (Option.mem_toList.mp he)
        exact hmem
    · exact h.entries e he

/-! ### All triggers of a change -/

variable {key : ρ → κ} {text : ρ → Option τ} {changed : ρ → ρ → Bool} {before after : Table key}

/-- The rows that went: their numbers go and their entries. -/
theorem Sound.leaves (h : ix.Sound) (after : Table key) (l : List ρ) :
    (l.foldl (fun ix row => ix.leave after row) ix).Sound ∧
      (∀ k, (l.foldl (fun ix row => ix.leave after row) ix).rowids.has k =
        (ix.rowids.has k && (after.has k || decide (k ∉ l.map key)))) ∧
      ∀ e, e ∈ (l.foldl (fun ix row => ix.leave after row) ix).entries ↔
        e ∈ ix.entries ∧ (after.has e.key = true ∨ e.key ∉ l.map key) := by
  induction l generalizing ix with
  | nil => exact ⟨h, fun k => by simp, fun e => by simp⟩
  | cons row l ih =>
    rw [List.foldl_cons, leave]
    by_cases hhas : after.has (key row) = true
    · rw [if_pos hhas]
      obtain ⟨hsound, hkeys, hentries⟩ := ih h
      refine ⟨hsound, fun k => ?_, fun e => ?_⟩
      · rw [hkeys]
        by_cases hk : k = key row
        · simp [hk, hhas]
        · simp [hk]
      · rw [hentries]
        by_cases hk : e.key = key row
        · simp [hk, hhas]
        · simp [hk]
    · rw [if_neg hhas]
      obtain ⟨hsound, hkeys, hentries⟩ := ih (h.delete (key row))
      refine ⟨hsound, fun k => ?_, fun e => ?_⟩
      · rw [hkeys, has_delete]
        by_cases hk : k = key row
        · simp [hk, hhas]
        · simp [hk]
      · rw [hentries, h.mem_delete]
        by_cases hk : e.key = key row
        · simp [hk, hhas]
        · simp [hk]

theorem write_of_find? {row old : ρ} (hfind : before.find? (key row) = some old) :
    ix.write text changed before row = if changed old row then ix.update (key row) (text row) else ix := by
  rw [write, hfind]

theorem write_of_new {row : ρ} (hfind : before.find? (key row) = none) :
    ix.write text changed before row = ix.insert (key row) (text row) := by
  rw [write, hfind]

theorem Sound.writes (h : ix.Sound) {l : List ρ} (hnodup : (l.map key).Nodup)
    (hkeys : ∀ row ∈ l, ix.rowids.has (key row) = before.has (key row)) :
    (l.foldl (fun ix row => ix.write text changed before row) ix).Sound ∧
      ∀ k, (l.foldl (fun ix row => ix.write text changed before row) ix).rowids.has k =
        (ix.rowids.has k || decide (k ∈ l.map key)) := by
  induction l generalizing ix with
  | nil => exact ⟨h, fun k => by simp⟩
  | cons row l ih =>
    rw [List.map_cons, List.nodup_cons] at hnodup
    obtain ⟨hrow, hrest⟩ := List.forall_mem_cons.mp hkeys
    rw [List.foldl_cons]
    cases hfind : before.find? (key row) with
    | some old =>
      have hhas : ix.rowids.has (key row) = true := by rw [hrow, Table.has, hfind]; rfl
      have hstep : (ix.write text changed before row).Sound ∧
          (ix.write text changed before row).rowids = ix.rowids := by
        rw [write_of_find? hfind]
        split_ifs
        · exact ⟨h.update _ _, rowids_update _ _⟩
        · exact ⟨h, rfl⟩
      obtain ⟨hsound, hwritten⟩ := ih hstep.1 hnodup.2 fun other hother => hstep.2 ▸ hrest other hother
      refine ⟨hsound, fun k => ?_⟩
      rw [hwritten, hstep.2]
      by_cases hk : k = key row
      · simp [hk, hhas]
      · simp [hk]
    | none =>
      have hnew : ix.rowids.has (key row) = false := by rw [hrow, Table.has, hfind]; rfl
      rw [write_of_new hfind]
      obtain ⟨hsound, hwritten⟩ := ih (h.insert hnew (text row)) hnodup.2 fun other hother => by
        rw [has_insert, hrest other hother]
        have hne : key other ≠ key row := fun hsame => hnodup.1 (hsame ▸ List.mem_map_of_mem hother)
        simp [hne]
      refine ⟨hsound, fun k => ?_⟩
      rw [hwritten, has_insert]
      by_cases hk : k = key row
      · simp [hk]
      · simp [hk]

theorem has_eq_decide (t : Table key) (k : κ) : t.has k = decide (k ∈ t.rows.map key) := by
  rw [Bool.eq_iff_iff, Table.has_iff, decide_eq_true_eq, List.mem_map]

/-- The index goes with the table. -/
theorem Sound.follow (h : ix.Sound) (hkeys : ∀ k, ix.rowids.has k = before.has k) :
    (ix.follow text changed before after).Sound ∧
      ∀ k, (ix.follow text changed before after).rowids.has k = after.has k := by
  obtain ⟨hsound, hgone, -⟩ := h.leaves after before.rows
  have hleft : ∀ k, (before.rows.foldl (fun ix row => ix.leave after row) ix).rowids.has k =
      (before.has k && after.has k) := fun k => by
    rw [hgone, hkeys, has_eq_decide before]
    by_cases hk : k ∈ before.rows.map key
    · simp [hk]
    · simp [hk]
  have hkept : ∀ row ∈ after.rows, (before.rows.foldl (fun ix row => ix.leave after row) ix).rowids.has (key row) =
      before.has (key row) := fun row hrow => by
    rw [hleft, Table.has_iff.mpr ⟨row, hrow, rfl⟩, Bool.and_true]
  have hwrites : (ix.follow text changed before after).Sound ∧
      ∀ k, (ix.follow text changed before after).rowids.has k =
      ((before.rows.foldl (fun ix row => ix.leave after row) ix).rowids.has k || decide (k ∈ after.rows.map key)) :=
    hsound.writes after.nodup hkept
  refine ⟨hwrites.1, fun k => ?_⟩
  rw [hwrites.2, hleft, has_eq_decide after]
  by_cases hk : k ∈ after.rows.map key
  · simp [hk]
  · simp [hk]

theorem foldl_write_of_mem (hchanged : ∀ row, changed row row = false) {l : List ρ} (hl : ∀ row ∈ l,
      row ∈ before.rows)
    (ix : RowIndex κ τ) : l.foldl (fun ix row => ix.write text changed before row) ix = ix := by
  induction l with
  | nil => rfl
  | cons row l ih =>
    obtain ⟨hrow, hrest⟩ := List.forall_mem_cons.mp hl
    rw [List.foldl_cons, write_of_find? (Table.find?_key hrow), if_neg (by rw [hchanged]; exact Bool.false_ne_true)]
    exact ih hrest

/-- Where rows only go, exactly their entries go. -/
theorem Sound.mem_follow_filter (h : ix.Sound) (hkeys : ∀ k, ix.rowids.has k = before.has k)
    (hchanged : ∀ row, changed row row = false) (p : ρ → Bool) {e : Entry κ τ} :
    e ∈ (ix.follow text changed before (before.filter p)).entries ↔
      e ∈ ix.entries ∧ (before.filter p).has e.key = true := by
  obtain ⟨-, -, hentries⟩ := h.leaves (before.filter p) before.rows
  rw [RowIndex.follow, Table.rows_filter, foldl_write_of_mem hchanged fun row hrow => List.mem_of_mem_filter hrow,
    hentries]
  refine and_congr_right fun he => or_iff_left fun hno => hno ?_
  have hhas : before.has e.key = true := by
    rw [← hkeys]
    exact Table.has_iff.mpr ⟨_, h.entries e he, rfl⟩
  obtain ⟨row, hrow, hk⟩ := Table.has_iff.mp hhas
  exact hk ▸ List.mem_map_of_mem hrow

end RowIndex

end Keyed
