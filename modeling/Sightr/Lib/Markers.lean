import Mathlib.Logic.Relation

/-!
# Markers in a text

A text is a list of units, a marker one of several words that all begin with one unit, which stands nowhere else in
them. Two markers of a text never overlap, so it does not matter in which order they are cut out: what is left when
none is left is the same.

## Main definitions

* `Markers.Lead`: the words all begin with the unit, and none begins another.
* `Markers.Removes`: one marker is cut out.
* `Markers.Free`: no marker stands in the text.

## Main results

* `Markers.Lead.split`: a marker across a seam at which the unit stands is on one side of it.
* `Markers.Lead.unique`: what is left in the end does not depend on the order.
-/

namespace Markers

variable {α : Type*} {markers : List (List α)} {lead : α}

/-- Every marker begins with the unit and has it nowhere else, and none is the beginning of another. -/
structure Lead (lead : α) (markers : List (List α)) : Prop where
  opens : ∀ m ∈ markers, ∃ rest, m = lead :: rest ∧ lead ∉ rest
  eq_of_isPrefix : ∀ m ∈ markers, ∀ n ∈ markers, m <+: n → m = n

/-- One marker is cut out of the text. -/
def Removes (markers : List (List α)) (text next : List α) : Prop :=
  ∃ before, ∃ m ∈ markers, ∃ after, text = before ++ m ++ after ∧ next = before ++ after

/-- No marker stands in the text. -/
def Free (markers : List (List α)) (text : List α) : Prop :=
  ∀ before, ∀ m ∈ markers, ∀ after, text ≠ before ++ m ++ after

abbrev Reaches (markers : List (List α)) : List α → List α → Prop := Relation.ReflTransGen (Removes markers)

theorem Removes.cons (c : α) {text next : List α} (h : Removes markers text next) :
    Removes markers (c :: text) (c :: next) := by
  obtain ⟨before, m, hm, after, rfl, rfl⟩ := h
  exact ⟨c :: before, m, hm, after, rfl, rfl⟩

theorem Reaches.cons (c : α) {text next : List α} (h : Reaches markers text next) :
    Reaches markers (c :: text) (c :: next) :=
  h.lift (c :: ·) fun _ _ => Removes.cons c

theorem Free.eq_of_reaches {text next : List α} (hfree : Free markers text) (h : Reaches markers text next) :
    next = text := by
  rcases Relation.ReflTransGen.cases_head h with rfl | ⟨other, ⟨before, m, hm, after, htext, -⟩, -⟩
  · rfl
  · exact absurd htext (hfree before m hm after)

theorem Free.of_infix {text part : List α} (h : Free markers text) (hpart : part <:+: text) : Free markers part := by
  obtain ⟨left, right, rfl⟩ := hpart
  intro before m hm after hmarker
  refine h (left ++ before) m hm (after ++ right) ?_
  rw [hmarker]
  simp

namespace Lead

variable (h : Lead lead markers)
include h

theorem length_pos {m : List α} (hm : m ∈ markers) : 0 < m.length := by
  obtain ⟨rest, rfl, -⟩ := h.opens m hm
  exact Nat.succ_pos _

/-- A text gets shorter, or stays as it is. -/
theorem eq_or_length_lt {text next : List α} (hreaches : Reaches markers text next) :
    next = text ∨ next.length < text.length := by
  induction hreaches with
  | refl => exact .inl rfl
  | tail _ hstep ih =>
    obtain ⟨before, m, hm, after, rfl, rfl⟩ := hstep
    have hpos := h.length_pos hm
    right
    rw [List.length_append]
    rcases ih with hsame | hlt
    · have hlength := congrArg List.length hsame
      rw [List.length_append, List.length_append] at hlength
      omega
    · rw [List.length_append, List.length_append] at hlt
      omega

theorem ends_before {m after k rest : List α} (hm : m ∈ markers) (heq : m ++ after = k ++ lead :: rest)
    (hk : k ≠ []) : ∃ l, k = m ++ l ∧ after = l ++ lead :: rest := by
  obtain ⟨l, hkl, hafter⟩ | ⟨l, hml, hrest⟩ := List.append_eq_append_iff.mp heq
  · exact ⟨l, hkl, hafter⟩
  · cases l with
    | nil => exact ⟨[], by simpa using hml.symm, by simpa using hrest.symm⟩
    | cons c l =>
      obtain ⟨rfl, -⟩ := List.cons.inj hrest
      obtain ⟨tail, rfl, hlead⟩ := h.opens m hm
      cases k with
      | nil => exact absurd rfl hk
      | cons first k =>
        obtain ⟨-, rfl⟩ := List.cons.inj hml
        simp at hlead

/-- A marker across a seam behind which the text ends or the unit stands is on one side of it. -/
theorem split {left right before m after : List α} (hm : m ∈ markers) (heq : left ++ right = before ++ m ++ after)
    (hright : right = [] ∨ ∃ rest, right = lead :: rest) :
    (∃ k, left = before ++ m ++ k ∧ after = k ++ right) ∨ ∃ k, before = left ++ k ∧ right = k ++ m ++ after := by
  rw [List.append_assoc] at heq
  obtain ⟨k, hbefore, hmarker⟩ | ⟨k, hleft, hmarker⟩ := List.append_eq_append_iff.mp heq
  · exact .inr ⟨k, hbefore, by rw [hmarker, List.append_assoc]⟩
  · by_cases hk : k = []
    · subst hk
      exact .inr ⟨[], by simpa using hleft.symm, by simpa using hmarker.symm⟩
    · left
      obtain rfl | ⟨rest, rfl⟩ := hright
      · exact ⟨after, by rw [hleft, List.append_assoc, hmarker, List.append_nil], (List.append_nil _).symm⟩
      · obtain ⟨l, rfl, hafter⟩ := h.ends_before hm hmarker hk
        exact ⟨l, by rw [hleft, List.append_assoc], hafter⟩

theorem same_or_behind {m after k m' after' : List α} (hm : m ∈ markers) (hm' : m' ∈ markers)
    (heq : m ++ after = k ++ (m' ++ after')) :
    k = [] ∧ m = m' ∧ after = after' ∨ ∃ l, k = m ++ l ∧ after = l ++ (m' ++ after') := by
  by_cases hk : k = []
  · subst hk
    have hsame : m = m' := by
      have hprefix : m' <+: m ++ after := heq ▸ List.prefix_append m' after'
      rcases List.prefix_or_prefix_of_prefix (List.prefix_append m after) hprefix with hshort | hlong
      · exact h.eq_of_isPrefix m hm m' hm' hshort
      · exact (h.eq_of_isPrefix m' hm' m hm hlong).symm
    subst hsame
    exact .inl ⟨rfl, rfl, List.append_cancel_left heq⟩
  · obtain ⟨rest, rfl, -⟩ := h.opens m' hm'
    exact .inr (h.ends_before hm heq hk)

/-- Two markers of a text are the same one, or one stands behind the other. -/
theorem apart {before m after before' m' after' : List α} (hm : m ∈ markers) (hm' : m' ∈ markers)
    (heq : before ++ m ++ after = before' ++ m' ++ after') :
    before = before' ∧ m = m' ∧ after = after' ∨ (∃ k, before' = before ++ m ++ k ∧ after = k ++ m' ++ after') ∨
        ∃ k, before = before' ++ m' ++ k ∧ after' = k ++ m ++ after := by
  rw [List.append_assoc, List.append_assoc] at heq
  obtain ⟨k, rfl, hmarker⟩ | ⟨k, rfl, hmarker⟩ := List.append_eq_append_iff.mp heq
  · obtain ⟨rfl, rfl, rfl⟩ | ⟨l, rfl, rfl⟩ := h.same_or_behind hm hm' hmarker
    · exact .inl ⟨(List.append_nil _).symm, rfl, rfl⟩
    · exact .inr (.inl ⟨l, by rw [List.append_assoc], by rw [List.append_assoc]⟩)
  · obtain ⟨rfl, rfl, rfl⟩ | ⟨l, rfl, rfl⟩ := h.same_or_behind hm' hm hmarker
    · exact .inl ⟨List.append_nil _, rfl, rfl⟩
    · exact .inr (.inr ⟨l, by rw [List.append_assoc], by rw [List.append_assoc]⟩)

/-- Two markers that are cut out one after the other may be cut out in the other order. -/
theorem diamond {text left right : List α} (hleft : Removes markers text left) (hright : Removes markers text right) :
    left = right ∨ ∃ next, Removes markers left next ∧ Removes markers right next := by
  obtain ⟨before, m, hm, after, rfl, rfl⟩ := hleft
  obtain ⟨before', m', hm', after', heq, rfl⟩ := hright
  obtain ⟨rfl, rfl, rfl⟩ | ⟨k, rfl, rfl⟩ | ⟨k, rfl, rfl⟩ := h.apart hm hm' heq
  · exact .inl rfl
  · exact .inr ⟨before ++ k ++ after', ⟨before ++ k, m', hm', after', by simp, rfl⟩,
      ⟨before, m, hm, k ++ after', by simp, by simp⟩⟩
  · exact .inr ⟨before' ++ k ++ after, ⟨before', m', hm', k ++ after, by simp, by simp⟩,
      ⟨before' ++ k, m, hm, after, by simp, rfl⟩⟩

/-- What is left when no marker is left does not depend on the order. -/
theorem unique {text left right : List α} (hleft : Reaches markers text left) (hright : Reaches markers text right)
    (hfree : Free markers left) (hfree' : Free markers right) : left = right := by
  obtain ⟨next, hl, hr⟩ := Relation.church_rosser (fun a b c hb hc => by
    obtain rfl | ⟨d, hbd, hcd⟩ := h.diamond hb hc
    · exact ⟨b, .refl, .refl⟩
    · exact ⟨d, .single hbd, .single hcd⟩) hleft hright
  exact (hfree.eq_of_reaches hl).symm.trans (hfree'.eq_of_reaches hr)

end Lead

end Markers
