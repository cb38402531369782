import Mathlib.Data.List.SplitBy
import Sightr.Send.Draft

/-!
# What the draft evidence says

`draftCarriesSend` of `shared/harness/guarded-send.ts`, on an engine without a grapheme segmenter: which drafts it
takes as evidence that a text landed in the input box.
-/

namespace Sightr

namespace Evidence

open JsText

variable (s : List Char)

def Blank : Prop := ∀ c ∈ s, isSpace c

def Bare : Prop := ∀ c ∈ s.head?, isSpace c = false

def BareEnd : Prop := ∀ c ∈ s.getLast?, isSpace c = false

def visibleText : List Char := s.filter fun c => !isSpace c

theorem visibleText_append (s t : List Char) : visibleText (s ++ t) = visibleText s ++ visibleText t :=
  List.filter_append _ _

variable {s : List Char}

theorem Blank.visibleText (h : Blank s) : visibleText s = [] := by
  refine List.filter_eq_nil_iff.mpr fun c hc => ?_
  rw [h c hc]
  decide

variable {t : List Char}

theorem Bare.left (h : Bare (s ++ t)) : Bare s := by
  cases s with
  | nil => exact fun _ hc => nomatch hc
  | cons c s => exact h

theorem BareEnd.right (h : BareEnd (s ++ t)) : BareEnd t := by
  intro c hc
  refine h c ?_
  rw [List.getLast?_append, Option.mem_def.mp hc]
  rfl

theorem Blank.not_bare (h : Blank s) (hs : s ≠ []) : ¬Bare (s ++ t) := by
  cases s with
  | nil => exact absurd rfl hs
  | cons c s =>
    intro hbare
    have hc : isSpace c = false := hbare c rfl
    rw [h c List.mem_cons_self] at hc
    cases hc

theorem Blank.not_bareEnd (h : Blank s) (hs : s ≠ []) : ¬BareEnd s := fun hbare => by
  have hlast := hbare _ (List.getLast?_eq_some_getLast hs)
  rw [h _ (List.getLast_mem hs)] at hlast
  cases hlast

variable {g : List Char}

theorem Blank.unique {g' s' : List Char} (hg : Blank g) (hg' : Blank g') (hs : Bare s) (hs' : Bare s')
    (h : g ++ s = g' ++ s') : g = g' ∧ s = s' := by
  obtain ⟨e, rfl, rfl⟩ | ⟨e, rfl, rfl⟩ := List.append_eq_append_iff.mp h
  · cases e with
    | nil => exact ⟨(List.append_nil _).symm, rfl⟩
    | cons c e =>
      have he : Blank (c :: e) := fun b hb => hg' b (List.mem_append_right _ hb)
      exact absurd hs (he.not_bare (List.cons_ne_nil _ _))
  · cases e with
    | nil => exact ⟨List.append_nil _, rfl⟩
    | cons c e =>
      have he : Blank (c :: e) := fun b hb => hg b (List.mem_append_right _ hb)
      exact absurd hs' (he.not_bare (List.cons_ne_nil _ _))

/-- The draft shows the window: visible characters and gaps are the same, except that a plain space that is a gap by
itself may stand for any gap, or for none. -/
inductive Shows : List Char → List Char → Prop
  | nil : Shows [] []
  | char {c : Char} {w d : List Char} : isSpace c = false → Shows w d → Shows (c :: w) (c :: d)
  | gap {g w d : List Char} : g ≠ [] → Blank g → Bare d → Shows w d → Shows (g ++ w) (g ++ d)
  | seam {g w d : List Char} : Blank g → Bare d → Shows w d → Shows (g ++ w) (' ' :: d)

variable {w d : List Char}

theorem Shows.eq_nil (h : Shows w d) (hd : d = []) : w = [] := by
  cases h with
  | nil => rfl
  | char => cases hd
  | gap hg => exact absurd (List.append_eq_nil_iff.mp hd).1 hg
  | seam => cases hd

theorem Shows.split (h : Shows w d) : ∀ {d₁ d₂ : List Char}, d = d₁ ++ d₂ → BareEnd d₁ ∨ Bare d₂ →
    ∃ w₁ w₂, w = w₁ ++ w₂ ∧ Shows w₁ d₁ ∧ Shows w₂ d₂ := by
  induction h with
  | nil =>
    intro d₁ d₂ hd _
    obtain ⟨rfl, rfl⟩ := List.append_eq_nil_iff.mp hd.symm
    exact ⟨[], [], rfl, .nil, .nil⟩
  | @char c w d hc hw ih =>
    intro d₁ d₂ hd hcut
    cases d₁ with
    | nil => exact ⟨[], c :: w, rfl, .nil, by rw [show d₂ = c :: d from hd.symm]; exact .char hc hw⟩
    | cons b d₁ =>
      rw [List.cons_append, List.cons.injEq] at hd
      obtain ⟨rfl, hd⟩ := hd
      obtain ⟨w₁, w₂, rfl, h₁, h₂⟩ := ih hd (hcut.imp_left fun h => h.right (s := [c]))
      exact ⟨c :: w₁, w₂, rfl, .char hc h₁, h₂⟩
  | @gap g w d hg hblank hbare hw ih =>
    intro d₁ d₂ hd hcut
    obtain ⟨e, rfl, rfl⟩ | ⟨e, rfl, rfl⟩ := List.append_eq_append_iff.mp hd
    · obtain ⟨w₁, w₂, rfl, h₁, h₂⟩ := ih rfl (hcut.imp_left BareEnd.right)
      exact ⟨g ++ w₁, w₂, (List.append_assoc _ _ _).symm, .gap hg hblank hbare.left h₁, h₂⟩
    · have hd₁ : Blank d₁ := fun c hc => hblank c (List.mem_append_left _ hc)
      have he : Blank e := fun c hc => hblank c (List.mem_append_right _ hc)
      by_cases hfirst : d₁ = []
      · subst hfirst
        exact ⟨[], e ++ w, rfl, .nil, .gap hg he hbare hw⟩
      · by_cases hsecond : e = []
        · subst hsecond
          refine ⟨d₁, w, by rw [List.append_nil], ?_, hw⟩
          rw [← List.append_nil d₁]
          exact .gap hfirst hd₁ (fun _ hc => nomatch hc) .nil
        · exact (hcut.elim (hd₁.not_bareEnd hfirst) (he.not_bare hsecond)).elim
  | @seam g w d hblank hbare hw ih =>
    intro d₁ d₂ hd hcut
    cases d₁ with
    | nil => exact ⟨[], g ++ w, rfl, .nil, by rw [show d₂ = ' ' :: d from hd.symm]; exact .seam hblank hbare hw⟩
    | cons b d₁ =>
      rw [List.cons_append, List.cons.injEq] at hd
      obtain ⟨rfl, rfl⟩ := hd
      obtain ⟨w₁, w₂, rfl, h₁, h₂⟩ := ih rfl (hcut.imp_left fun h => h.right (s := [' ']))
      exact ⟨g ++ w₁, w₂, (List.append_assoc _ _ _).symm, .seam hblank hbare.left h₁, h₂⟩

theorem Shows.visibleText_eq (h : Shows w d) : visibleText d = visibleText w := by
  induction h with
  | nil => rfl
  | char hc _ ih =>
    unfold visibleText at ih ⊢
    rw [List.filter_cons_of_pos (by rw [hc]; rfl), List.filter_cons_of_pos (by rw [hc]; rfl), ih]
  | gap _ _ _ _ ih => rw [visibleText_append, visibleText_append, ih]
  | @seam g w d hg _ _ ih =>
    have hspace : visibleText [' '] = [] := by decide
    rw [← List.singleton_append, visibleText_append, visibleText_append, ih, hspace, hg.visibleText]

theorem bare_nil : Bare [] := fun _ hc => nomatch hc

theorem Shows.eq_of_run (h : Shows w d) (hd : ∀ c ∈ d, isSpace c = false) : w = d := by
  induction h with
  | nil => rfl
  | char _ _ ih => rw [ih fun c hc => hd c (List.mem_cons_of_mem _ hc)]
  | @gap g w d hg hblank _ _ _ =>
    have hlast := hd _ (List.mem_append_left _ (List.getLast_mem hg))
    rw [hblank _ (List.getLast_mem hg)] at hlast
    cases hlast
  | seam => exact absurd (hd ' ' List.mem_cons_self) (by decide)

theorem Shows.eq_of_gap (h : Shows w g) (hblank : Blank g) (hwide : g ≠ [' ']) : w = g := by
  generalize hd : g = d at h
  cases h with
  | nil => rfl
  | @char c w d hc hw =>
    subst hd
    rw [hblank c List.mem_cons_self] at hc
    cases hc
  | @gap g' w d hg' hblank' hbare hw =>
    obtain ⟨rfl, rfl⟩ := Blank.unique hblank hblank' bare_nil hbare (by rw [List.append_nil]; exact hd)
    rw [hw.eq_nil rfl]
  | @seam g' w d hblank' hbare hw =>
    have hspace : Blank [' '] := fun c hc => by
      rw [List.mem_singleton.mp hc]
      decide
    exact absurd (Blank.unique hblank hspace bare_nil hbare (by rw [List.append_nil]; exact hd)).1 hwide

private theorem Shows.blank (h : Shows w d) (hd : Blank d) : Blank w := by
  induction h with
  | nil => exact hd
  | @char c w d hc _ _ =>
    rw [hd c List.mem_cons_self] at hc
    cases hc
  | gap _ hg _ _ ih =>
    exact fun c hc => (List.mem_append.mp hc).elim (hg c) (ih (fun b hb => hd b (List.mem_append_right _ hb)) c)
  | seam hg _ _ ih =>
    exact fun c hc => (List.mem_append.mp hc).elim (hg c) (ih (fun b hb => hd b (List.mem_cons_of_mem _ hb)) c)

private theorem Shows.head (h : Shows w d) (hbare : Bare d) (hd : d ≠ []) :
    ∃ c w', w = c :: w' ∧ isSpace c = false := by
  cases h with
  | nil => exact absurd rfl hd
  | @char c w d hc _ => exact ⟨c, w, rfl, hc⟩
  | gap hg hblank _ _ => exact absurd hbare (hblank.not_bare hg)
  | seam => exact absurd (hbare ' ' rfl) (by decide)

theorem Shows.run {p : List Char} (hp : ∀ c ∈ p, isSpace c = false) (h : Shows w d) : Shows (p ++ w) (p ++ d) := by
  induction p with
  | nil => exact h
  | cons c p ih => exact .char (hp c List.mem_cons_self) (ih fun b hb => hp b (List.mem_cons_of_mem _ hb))

theorem Shows.gap_verbatim {d₁ d₂ : List Char} (h : Shows w (d₁ ++ (g ++ d₂))) (hblank : Blank g)
    (hbefore : BareEnd d₁) (hafter : Bare d₂) (hwide : g ≠ [' ']) :
    ∃ w₁ w₂, w = w₁ ++ (g ++ w₂) ∧ Shows w₁ d₁ ∧ Shows w₂ d₂ := by
  obtain ⟨w₁, w', rfl, h₁, h'⟩ := h.split rfl (.inl hbefore)
  obtain ⟨w₂, w₃, rfl, h₂, h₃⟩ := h'.split rfl (.inr hafter)
  exact ⟨w₁, w₃, by rw [h₂.eq_of_gap hblank hwide], h₁, h₃⟩

/-! ### The runs and gaps of a draft -/

/-- Runs and gaps in turn, none of them empty, with a run at the end. -/
def Alternates : Bool → List (List Char) → Prop
  | space, [] => space = true
  | space, part :: parts => part ≠ [] ∧ (∀ c ∈ part, isSpace c = space) ∧ Alternates (!space) parts

variable {part : List Char} {space : Bool}

theorem isChain_same (h : part.IsChain fun a b => isSpace a = isSpace b)
    (hhead : ∀ c ∈ part.head?, isSpace c = space) : ∀ c ∈ part, isSpace c = space := by
  induction part with
  | nil => exact fun _ hc => nomatch hc
  | cons a part ih =>
    intro c hc
    have ha : isSpace a = space := hhead a rfl
    obtain rfl | hc := List.mem_cons.mp hc
    · exact ha
    · refine ih h.tail (fun b hb => ?_) c hc
      cases part with
      | nil => cases hb
      | cons b' part =>
        cases hb
        exact (List.isChain_cons_cons.mp h).1.symm.trans ha

variable {parts : List (List Char)}

theorem alternates_of_parts (hne : ∀ part ∈ parts, part ≠ [])
    (hsame : ∀ part ∈ parts, part.IsChain fun a b => isSpace a = isSpace b)
    (hcut : parts.IsChain fun a b => ∃ ha hb, isSpace (a.getLast ha) ≠ isSpace (b.head hb))
    (hhead : ∀ part ∈ parts.head?, ∀ c ∈ part.head?, isSpace c = space) (hnil : parts = [] → space = true)
    (hlast : ∀ part ∈ parts.getLast?, BareEnd part) : Alternates space parts := by
  induction parts generalizing space with
  | nil => exact hnil rfl
  | cons part parts ih =>
    have hpart := isChain_same (hsame part List.mem_cons_self) (hhead part rfl)
    have hpne := hne part List.mem_cons_self
    refine ⟨hpne, hpart, ih (fun p hp => hne p (List.mem_cons_of_mem _ hp))
      (fun p hp => hsame p (List.mem_cons_of_mem _ hp)) hcut.tail ?_ ?_ ?_⟩
    · intro next hnext c hc
      cases parts with
      | nil => cases hnext
      | cons next' parts =>
        cases hnext
        obtain ⟨ha, hb, hdiff⟩ := (List.isChain_cons_cons.mp hcut).1
        rw [hpart _ (List.getLast_mem ha), (List.head_eq_iff_head?_eq_some hb).mpr hc] at hdiff
        exact Bool.eq_not.mpr hdiff.symm
    · rintro rfl
      have hbare : isSpace (part.getLast hpne) = false := hlast part rfl _ (List.getLast?_eq_some_getLast hpne)
      rw [hpart _ (List.getLast_mem hpne)] at hbare
      rw [hbare]
      rfl
    · intro p hp
      refine hlast p ?_
      cases parts with
      | nil => cases hp
      | cons next parts => exact hp

theorem blank_takeWhile (s : List Char) : Blank (s.takeWhile isSpace) := fun c hc =>
  List.all_eq_true.mp (List.all_takeWhile) c hc

theorem bare_dropWhile (s : List Char) : Bare (s.dropWhile isSpace) := by
  intro c hc
  have h := List.head?_dropWhile_not isSpace s
  rw [Option.mem_def.mp hc] at h
  exact h

theorem trim_spec (s : List Char) : (∃ a b, Blank a ∧ Blank b ∧ s = a ++ (trim s ++ b)) ∧ Bare (trim s) ∧
    BareEnd (trim s) := by
  have hstart : s = s.takeWhile isSpace ++ trimStart s := List.takeWhile_append_dropWhile.symm
  have hend : trimStart s = trim s ++ ((trimStart s).reverse.takeWhile isSpace).reverse := by
    unfold trim trimEnd
    rw [← List.reverse_append, List.takeWhile_append_dropWhile, List.reverse_reverse]
  refine ⟨⟨s.takeWhile isSpace, ((trimStart s).reverse.takeWhile isSpace).reverse, fun c hc => ?_, fun c hc => ?_,
    ?_⟩, ?_, ?_⟩
  · exact blank_takeWhile _ c hc
  · exact blank_takeWhile _ c (List.mem_reverse.mp hc)
  · rw [← hend]
    exact hstart
  · refine Bare.left (t := ((trimStart s).reverse.takeWhile isSpace).reverse) ?_
    rw [← hend]
    exact bare_dropWhile s
  · intro c hc
    unfold trim trimEnd at hc
    rw [List.getLast?_reverse] at hc
    exact bare_dropWhile _ c hc

theorem draftParts_flatten (draft : List Char) : (draftParts draft).flatten = trim draft := List.flatten_splitBy _ _

theorem draftParts_alternates {draft : List Char} (h : trim draft ≠ []) : Alternates false (draftParts draft) := by
  have hflat := draftParts_flatten draft
  obtain ⟨_, hbare, hbareEnd⟩ := trim_spec draft
  refine alternates_of_parts (fun _ hp => List.ne_nil_of_mem_splitBy hp) (fun part hp => ?_) ?_ ?_ ?_ ?_
  · have hchain := List.isChain_of_mem_splitBy hp
    simpa using hchain
  · have hchain := List.isChain_getLast_head_splitBy (fun a b => decide (isSpace a = isSpace b)) (trim draft)
    simpa [draftParts] using hchain
  · intro part hp
    obtain ⟨rest, hparts⟩ := List.head?_eq_some_iff.mp (Option.mem_def.mp hp)
    rw [hparts, List.flatten_cons] at hflat
    rw [← hflat] at hbare
    exact hbare.left
  · intro hnil
    exact absurd (List.splitBy_eq_nil.mp hnil) h
  · intro part hp
    obtain ⟨front, hparts⟩ := List.getLast?_eq_some_iff.mp (Option.mem_def.mp hp)
    rw [hparts, List.flatten_append, List.flatten_singleton] at hflat
    rw [← hflat] at hbareEnd
    exact hbareEnd.right

/-! ### The pattern -/

def pieces : Bool → List (List Char) → List Piece
  | _, [] => []
  | space, part :: parts => (if space ∧ part = [' '] then .seam else .exact part) :: pieces (!space) parts

private def piece : List Char × Nat → Piece := fun (part, i) => if i % 2 = 1 && part =
      [' '] then .seam else .exact part

theorem draftPattern_eq (parts : List (List Char)) : draftPattern parts = pieces false parts := by
  have hfrom : ∀ (parts : List (List Char)) (k : Nat), (parts.zipIdx k).map piece = pieces (k % 2 = 1) parts := by
    intro parts
    induction parts with
    | nil => exact fun _ => rfl
    | cons part parts ih =>
      intro k
      rw [List.zipIdx_cons, List.map_cons, ih (k + 1), pieces]
      have hflip : (decide ((k + 1) % 2 = 1)) = !decide (k % 2 = 1) := by
        rw [← decide_not, decide_eq_decide]
        omega
      rw [hflip]
      simp [piece]
  exact hfrom parts 0

theorem Alternates.bare (h : Alternates false parts) : parts.flatten ≠ [] ∧ Bare parts.flatten := by
  cases parts with
  | nil => cases h
  | cons part parts =>
    obtain ⟨hne, hpart, _⟩ := h
    cases part with
    | nil => exact absurd rfl hne
    | cons c part =>
      refine ⟨List.cons_ne_nil _ _, fun b hb => ?_⟩
      obtain rfl : c = b := Option.some.inj hb
      exact hpart c List.mem_cons_self

variable {ps : List Piece}

theorem matchLength_exact :
    matchLength (.exact part :: ps) (part ++ s) = (matchLength ps s).map (part.length + ·) := by
  rw [matchLength, if_pos (List.isPrefixOf_iff_prefix.mpr (List.prefix_append _ _)), List.drop_left]

theorem matchLength_seam (hg : Blank g) (hs : Bare s) :
    matchLength (.seam :: ps) (g ++ s) = (matchLength ps s).map (g.length + ·) := by
  have htake : (g ++ s).takeWhile isSpace = g := by
    rw [List.takeWhile_append_of_pos hg]
    cases s with
    | nil => rw [List.takeWhile_nil, List.append_nil]
    | cons c s => rw [List.takeWhile_cons, hs c rfl, if_neg Bool.false_ne_true, List.append_nil]
  rw [matchLength, htake, List.drop_left]

theorem matchLength_shows (halt : Alternates space parts) {n : Nat} (h : matchLength (pieces space parts) s = some n) :
    ∃ w after, s = w ++ after ∧ w.length = n ∧ Shows w parts.flatten := by
  induction parts generalizing space s n with
  | nil =>
    obtain rfl : 0 = n := Option.some.inj h
    exact ⟨[], s, rfl, rfl, .nil⟩
  | cons part parts ih =>
    obtain ⟨hne, hpart, hrest⟩ := halt
    rw [pieces] at h
    split_ifs at h with hseam
    · obtain ⟨rfl, rfl⟩ := hseam
      have hs : s = s.takeWhile isSpace ++ s.dropWhile isSpace := List.takeWhile_append_dropWhile.symm
      rw [hs, matchLength_seam (blank_takeWhile s) (bare_dropWhile s), Option.map_eq_some_iff] at h
      obtain ⟨m, hm, rfl⟩ := h
      obtain ⟨w, after, hafter, rfl, hw⟩ := ih hrest hm
      refine ⟨s.takeWhile isSpace ++ w, after, ?_, List.length_append, ?_⟩
      · rw [List.append_assoc, ← hafter]
        exact hs
      · exact .seam (blank_takeWhile s) hrest.bare.2 hw
    · by_cases hprefix : part.isPrefixOf s
      · obtain ⟨s, rfl⟩ := List.isPrefixOf_iff_prefix.mp hprefix
        rw [matchLength_exact, Option.map_eq_some_iff] at h
        obtain ⟨m, hm, rfl⟩ := h
        obtain ⟨w, after, rfl, rfl, hw⟩ := ih hrest hm
        refine ⟨part ++ w, after, (List.append_assoc _ _ _).symm, List.length_append, ?_⟩
        cases space with
        | false => exact hw.run hpart
        | true => exact .gap hne hpart hrest.bare.2 hw
      · rw [matchLength, if_neg hprefix] at h
        cases h

theorem matchLength_of_shows (halt : Alternates space parts) (h : Shows w parts.flatten) (after : List Char) :
    matchLength (pieces space parts) (w ++ after) = some w.length := by
  induction parts generalizing space w with
  | nil =>
    rw [h.eq_nil rfl]
    rfl
  | cons part parts ih =>
    obtain ⟨hne, hpart, hrest⟩ := halt
    rw [List.flatten_cons] at h
    rw [pieces]
    cases space with
    | false =>
      have hend : BareEnd part := fun c hc => hpart c (List.mem_of_getLast? hc)
      obtain ⟨w₁, w₂, rfl, h₁, h₂⟩ := h.split rfl (.inl hend)
      obtain rfl := h₁.eq_of_run hpart
      rw [if_neg (fun h => Bool.false_ne_true h.1), List.append_assoc, matchLength_exact, ih hrest h₂,
        List.length_append]
      rfl
    | true =>
      obtain ⟨w₁, w₂, rfl, h₁, h₂⟩ := h.split rfl (.inr hrest.bare.2)
      split_ifs with hseam
      · obtain ⟨c, w', rfl, hc⟩ := h₂.head hrest.bare.2 hrest.bare.1
        rw [List.append_assoc, matchLength_seam (h₁.blank hpart), ih hrest h₂, List.length_append]
        · rfl
        · intro b hb
          obtain rfl : c = b := Option.some.inj hb
          exact hc
      · obtain rfl := h₁.eq_of_gap hpart fun h => hseam ⟨rfl, h⟩
        rw [List.append_assoc, matchLength_exact, ih hrest h₂, List.length_append]
        rfl

/-! ### Acceptance -/

def Evident (sent draft : List Char) : Prop :=
  ∃ before w after, sent = before ++ (w ++ after) ∧ Shows w (trim draft)

theorem visibleLength_blank (h : Blank s) : visibleLength none s = 0 := by
  refine List.countP_eq_zero.mpr fun c hc => ?_
  simp [isUnreadable, h c hc]

theorem visibleLength_append (s t : List Char) :
    visibleLength none (s ++ t) = visibleLength none s + visibleLength none t := List.countP_append

theorem visible_runs (h : Alternates space parts) : ∀ k, (k % 2 = 1 ↔ space = true) →
      ((((parts.zipIdx k).filter fun part => part.2 % 2 = 0).map (·.1)).map (visibleLength none)).sum =
        visibleLength none parts.flatten := by
  induction parts generalizing space with
  | nil => exact fun _ _ => rfl
  | cons part parts ih =>
    intro k hk
    obtain ⟨_, hpart, hrest⟩ := h
    have hnext : (k + 1) % 2 = 1 ↔ (!space) = true := by
      cases space <;> simp at hk ⊢ <;> omega
    have hsum := ih hrest (k + 1) hnext
    rw [List.zipIdx_cons, List.flatten_cons, visibleLength_append]
    cases space with
    | false =>
      rw [List.filter_cons_of_pos (by simp at hk ⊢; omega), List.map_cons, List.map_cons, List.sum_cons, hsum]
    | true =>
      rw [List.filter_cons_of_neg (by simp at hk ⊢; omega), hsum, visibleLength_blank hpart, Nat.zero_add]

theorem draftCarriesSend_iff (sent draft : String) : draftCarriesSend none sent (some draft) = true ↔
    trim draft.toList ≠ [] ∧
      min (visibleLength none sent.toList) MIN_MATCH_CHARS ≤ visibleLength none (trim draft.toList) ∧
      Evident sent.toList draft.toList := by
  by_cases hdraft : trim draft.toList = []
  · have hparts : draftParts draft.toList = [] := List.splitBy_eq_nil.mpr hdraft
    simp [draftCarriesSend, hparts, hdraft]
  have halt := draftParts_alternates hdraft
  have hflat := draftParts_flatten draft.toList
  have hne : (draftParts draft.toList).isEmpty = false := by
    rw [Bool.eq_false_iff, Ne, List.isEmpty_iff]
    exact fun h => hdraft (List.splitBy_eq_nil.mp h)
  have hvisible := visible_runs halt 0 (by decide)
  rw [hflat] at hvisible
  unfold draftCarriesSend
  dsimp only
  rw [hvisible, hne, draftPattern_eq, Bool.not_false, Bool.true_and, Bool.and_eq_true, decide_eq_true_iff,
    List.any_eq_true]
  refine Iff.trans (and_congr_right_iff.mpr fun _ => ⟨?_, ?_⟩) (and_iff_right hdraft).symm
  · rintro ⟨start, _, h⟩
    cases hmatch : matchLength (pieces false (draftParts draft.toList)) (sent.toList.drop start) with
    | none =>
      rw [hmatch] at h
      cases h
    | some n =>
      obtain ⟨w, after, hdrop, _, hw⟩ := matchLength_shows halt hmatch
      rw [hflat] at hw
      exact ⟨sent.toList.take start, w, after, by rw [← hdrop, List.take_append_drop], hw⟩
  · rintro ⟨before, w, after, hsent, hw⟩
    have hlength := congrArg List.length hsent
    rw [List.length_append, List.length_append] at hlength
    refine ⟨before.length, List.mem_range.mpr (by omega), ?_⟩
    rw [← hflat] at hw
    rw [hsent, List.drop_left, matchLength_of_shows halt hw, ← hsent, Bool.and_eq_true, List.contains_iff_mem,
      List.contains_iff_mem]
    exact ⟨List.mem_range.mpr (by omega), List.mem_range.mpr (by omega)⟩

/-! ### Folded windows -/

inductive Token
  | kept (c : Char)
  | folded (gap : List Char) (blank : Blank gap)

def Token.text : Token → List Char
  | .kept c => [c]
  | .folded gap _ => gap

/-- What the box shows of it: a line break or a wrap is one plain space. -/
def Token.shown : Token → Char
  | .kept c => c
  | .folded _ _ => ' '

def Token.isFold : Token → Bool
  | .kept _ => false
  | .folded _ _ => true

/-- A fold stands apart from white space and from other folds. -/
def Apart (a b : Token) : Prop := (a.isFold → isSpace b.shown = false) ∧ (b.isFold → isSpace a.shown = false)

instance : DecidableRel Apart := fun a b =>
  inferInstanceAs (Decidable ((a.isFold → isSpace b.shown = false) ∧ (b.isFold → isSpace a.shown = false)))

def windowOf (tokens : List Token) : List Char := tokens.flatMap Token.text

def draftOf (tokens : List Token) : List Char := tokens.map Token.shown

variable {tokens : List Token}

theorem shows_tokens (h : tokens.IsChain Apart) :
    Shows (windowOf tokens) (draftOf tokens) ∧ ∀ c rest, tokens = .kept c :: rest → isSpace c →
      ∃ g w d, g ≠ [] ∧ Blank g ∧ Bare d ∧ Shows w d ∧ windowOf tokens = g ++ w ∧ draftOf tokens = g ++ d := by
  induction tokens with
  | nil => exact ⟨.nil, fun _ _ h => nomatch h⟩
  | cons token tokens ih =>
    obtain ⟨hshows, hgap⟩ := ih h.tail
    have hbehind : (∀ b ∈ tokens.head?, isSpace b.shown = false) → Bare (draftOf tokens) := by
      intro hall c hc
      cases tokens with
      | nil => cases hc
      | cons b tokens =>
        obtain rfl : b.shown = c := Option.some.inj hc
        exact hall b rfl
    cases token with
    | folded gap blank =>
      refine ⟨.seam blank (hbehind fun b hb => ?_) hshows, fun _ _ h => nomatch h⟩
      exact (h.rel_head? hb).1 rfl
    | kept c =>
      cases hc : isSpace c with
      | false =>
        refine ⟨.char hc hshows, fun b rest hb hspace => ?_⟩
        obtain ⟨hb, _⟩ := List.cons.inj hb
        cases hb
        rw [hc] at hspace
        cases hspace
      | true =>
        have hfound : ∃ g w d, g ≠ [] ∧ Blank g ∧ Bare d ∧ Shows w d ∧ c :: windowOf tokens = g ++ w ∧
            c :: draftOf tokens = g ++ d := by
          have hone : Blank [c] := fun b hb => by rw [List.mem_singleton.mp hb, hc]
          cases tokens with
          | nil => exact ⟨[c], [], [], List.cons_ne_nil _ _, hone, bare_nil, .nil, rfl, rfl⟩
          | cons b tokens =>
            cases b with
            | folded gap blank =>
              have hbare : isSpace c = false := (h.rel_head? rfl).2 rfl
              rw [hc] at hbare
              cases hbare
            | kept b =>
              cases hb : isSpace b with
              | false =>
                refine ⟨[c], _, _, List.cons_ne_nil _ _, hone, hbehind fun e he => ?_, hshows, rfl, rfl⟩
                obtain rfl : Token.kept b = e := Option.some.inj he
                exact hb
              | true =>
                obtain ⟨g, w, d, _, hblank, hbare, hw, hwindow, hdraft⟩ := hgap b tokens rfl hb
                refine ⟨c :: g, w, d, List.cons_ne_nil _ _, ?_, hbare, hw, congrArg (c :: ·) hwindow,
                  congrArg (c :: ·) hdraft⟩
                exact List.forall_mem_cons.mpr ⟨hc, hblank⟩
        refine ⟨?_, fun _ _ _ _ => hfound⟩
        obtain ⟨g, w, d, hg, hblank, hbare, hw, hwindow, hdraft⟩ := hfound
        change Shows (c :: windowOf tokens) (c :: draftOf tokens)
        rw [hwindow, hdraft]
        exact .gap hg hblank hbare hw

theorem Shows.visibleLength_eq (h : Shows w d) : visibleLength none d = visibleLength none w := by
  induction h with
  | nil => rfl
  | @char c w d _ _ ih =>
    rw [← List.singleton_append, visibleLength_append, ih, ← visibleLength_append, List.singleton_append]
  | gap _ _ _ _ ih => rw [visibleLength_append, visibleLength_append, ih]
  | @seam g w d hg _ _ ih =>
    have hspace : visibleLength none [' '] = 0 := by decide
    rw [← List.singleton_append, visibleLength_append, visibleLength_append, ih, hspace, visibleLength_blank hg]

theorem visibleLength_trim (s : List Char) : visibleLength none (trim s) = visibleLength none s := by
  obtain ⟨⟨a, b, ha, hb, hs⟩, _⟩ := trim_spec s
  conv_rhs => rw [hs]
  rw [visibleLength_append, visibleLength_append, visibleLength_blank ha, visibleLength_blank hb, Nat.zero_add,
    Nat.add_zero]

theorem visibleText_trim (s : List Char) : visibleText (trim s) = visibleText s := by
  obtain ⟨⟨a, b, ha, hb, hs⟩, _⟩ := trim_spec s
  conv_rhs => rw [hs]
  rw [visibleText_append, visibleText_append, ha.visibleText, hb.visibleText, List.nil_append, List.append_nil]

private theorem Shows.trim (h : Shows w d) :
    ∃ before w' after, w = before ++ (w' ++ after) ∧ Shows w' (trim d) := by
  obtain ⟨⟨a, b, ha, hb, hd⟩, hbare, hend⟩ := trim_spec d
  by_cases hne : JsText.trim d = []
  · rw [hne]
    exact ⟨w, [], [], by rw [List.append_nil, List.append_nil], .nil⟩
  · have hrest : Bare (JsText.trim d ++ b) := by
      cases hc : JsText.trim d with
      | nil => exact absurd hc hne
      | cons c s =>
        rw [hc] at hbare
        exact hbare
    obtain ⟨w₁, w', rfl, _, h'⟩ := h.split hd (.inr hrest)
    obtain ⟨w₂, w₃, rfl, h₂, _⟩ := h'.split rfl (.inl hend)
    exact ⟨w₁, w₂, w₃, rfl, h₂⟩

theorem evident_of_tokens {sent before after : List Char}
    (hsent : sent = before ++ (windowOf tokens ++ after)) (hapart : tokens.IsChain Apart) :
    Evident sent (draftOf tokens) := by
  obtain ⟨front, w, behind, hw, hshows⟩ := (shows_tokens hapart).1.trim
  refine ⟨before ++ front, w, behind ++ after, ?_, hshows⟩
  rw [hsent, hw]
  simp only [List.append_assoc]

/-! ### Main results -/

/-- Acceptance is exact: the trimmed draft has a visible run, is long enough and shows a window of the sent text. So
it is sound: the window begins and ends at characters, is the draft but for white space, and has each gap that is no
lone plain space at its place. And it is complete: a window is accepted, long enough and not all white space, whose
folds stand apart. -/
theorem draftCarriesSend_exact (sent draft : String) :
    (draftCarriesSend none sent (some draft) = true ↔ trim draft.toList ≠ [] ∧
      min (visibleLength none sent.toList) MIN_MATCH_CHARS ≤ visibleLength none (trim draft.toList) ∧
      Evident sent.toList draft.toList) ∧
    (draftCarriesSend none sent (some draft) = true →
      min (visibleLength none sent.toList) 8 ≤ visibleLength none draft.toList ∧
      visibleText draft.toList <:+: visibleText sent.toList ∧
      ∃ before w after, sent.toList = before ++ (w ++ after) ∧
        before.length ∈ characterBoundaries none sent.toList ∧
        before.length + w.length ∈ characterBoundaries none sent.toList ∧
        visibleText draft.toList = visibleText w ∧
        ∀ d₁ g d₂, trim draft.toList = d₁ ++ (g ++ d₂) → Blank g → BareEnd d₁ → Bare d₂ → g ≠ [' '] →
          ∃ w₁ w₂, w = w₁ ++ (g ++ w₂) ∧ Shows w₁ d₁ ∧ Shows w₂ d₂) ∧
    ∀ before tokens after, sent.toList = before ++ (windowOf tokens ++ after) → draft.toList = draftOf tokens →
      tokens.IsChain Apart → (∃ c, .kept c ∈ tokens ∧ isSpace c = false) →
      min (visibleLength none sent.toList) 8 ≤ visibleLength none (windowOf tokens) →
      draftCarriesSend none sent (some draft) = true := by
  refine ⟨draftCarriesSend_iff sent draft, fun h => ?_, fun before tokens after hsent hdraft hapart hkept hlong => ?_⟩
  · obtain ⟨_, hlong, before, w, after, hsent, hshows⟩ := (draftCarriesSend_iff sent draft).mp h
    have hvisible : visibleText draft.toList = visibleText w := by
      rw [← visibleText_trim, hshows.visibleText_eq]
    have hlength := congrArg List.length hsent
    rw [List.length_append, List.length_append] at hlength
    refine ⟨by rwa [visibleLength_trim] at hlong, ?_, before, w, after, hsent, List.mem_range.mpr (by omega),
      List.mem_range.mpr (by omega), hvisible, fun d₁ g d₂ hd hblank hbefore hafter hwide => ?_⟩
    · rw [hvisible, hsent, visibleText_append, visibleText_append]
      exact ⟨_, _, List.append_assoc _ _ _⟩
    · rw [hd] at hshows
      exact hshows.gap_verbatim hblank hbefore hafter hwide
  · refine (draftCarriesSend_iff sent draft).mpr ⟨fun hnil => ?_, ?_, ?_⟩
    · obtain ⟨c, hc, hbare⟩ := hkept
      obtain ⟨⟨a, b, ha, hb, hs⟩, _⟩ := trim_spec draft.toList
      have hmem : c ∈ draft.toList := by
        rw [hdraft]
        exact List.mem_map.mpr ⟨_, hc, rfl⟩
      rw [hs, hnil, List.nil_append] at hmem
      rw [(List.mem_append.mp hmem).elim (ha c) (hb c)] at hbare
      cases hbare
    · rw [visibleLength_trim, hdraft, (shows_tokens hapart).1.visibleLength_eq]
      exact hlong
    · rw [hdraft]
      exact evident_of_tokens hsent hapart

theorem blank_newline : Blank ['\n'] := fun c hc => by
  rw [List.mem_singleton.mp hc]
  decide

/-- A window with a fold at its line break. -/
theorem draftCarriesSend_folded : draftCarriesSend none "hello there,\nworld" (some "hello there, world") = true :=
  (draftCarriesSend_exact "hello there,\nworld" "hello there, world").2.2 []
    ("hello there,".toList.map .kept ++ .folded ['\n'] blank_newline :: "world".toList.map .kept) []
    (by decide) (by decide) (by decide) ⟨'h', List.mem_cons_self, by decide⟩ (by decide)

/-- The empty window is refused, although a text without a visible character asks for none. So is a window with a fold
beside another space, where the draft shows a wide gap. -/
theorem draftCarriesSend_refuses : (min (visibleLength none "".toList) 8 ≤ visibleLength none (windowOf []) ∧
      draftCarriesSend none "" (some (String.ofList (draftOf []))) = false) ∧
    ∃ tokens : List Token, "hello there, \nworld".toList = windowOf tokens ∧
      "hello there,  world".toList = draftOf tokens ∧
      min (visibleLength none "hello there, \nworld".toList) 8 ≤ visibleLength none (windowOf tokens) ∧
      draftCarriesSend none "hello there, \nworld" (some "hello there,  world") = false :=
  ⟨⟨by decide, by decide⟩,
    "hello there, ".toList.map .kept ++ .folded ['\n'] blank_newline :: "world".toList.map .kept,
    by decide, by decide, by decide, by decide⟩

end Evidence

end Sightr
