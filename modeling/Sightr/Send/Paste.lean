import Sightr.Lib.Markers
import Mathlib.Algebra.Order.Ring.Int

/-!
# Bracketed pastes

`stripPasteMarkers` and `bracketedPasteChunks` of `bridge/pane-write-routes.ts`: a text is freed of paste markers, cut
into pieces, and each piece is wrapped as a paste of its own. Texts are UTF-16 code units.
-/

namespace Sightr.Paste

open Markers

abbrev Text := List UInt16

def PASTE_START : Text := [0x1b, 0x5b, 0x32, 0x30, 0x30, 0x7e]

def PASTE_END : Text := [0x1b, 0x5b, 0x32, 0x30, 0x31, 0x7e]

def PASTE_MARKER : List Text := [PASTE_START, PASTE_END]

theorem lead : Lead (0x1b : UInt16) PASTE_MARKER where
  opens := by
    intro m hm
    obtain rfl | rfl : m = PASTE_START ∨ m = PASTE_END := by simpa [PASTE_MARKER] using hm
    · exact ⟨_, rfl, by decide⟩
    · exact ⟨_, rfl, by decide⟩
  eq_of_isPrefix := by
    intro m hm n hn hprefix
    obtain rfl | rfl : m = PASTE_START ∨ m = PASTE_END := by simpa [PASTE_MARKER] using hm
    all_goals
      obtain rfl | rfl : n = PASTE_START ∨ n = PASTE_END := by simpa [PASTE_MARKER] using hn
      all_goals first | rfl | exact absurd hprefix (by decide)

/-! ### The markers in the text -/

def startsMarker (txt : Text) : Bool := PASTE_MARKER.any fun marker => marker.isPrefixOf txt

/-- `replace(PASTE_MARKER, "")`, when so many units of a match are still to go. -/
def cutMarkers : Nat → Text → Text
  | _, [] => []
  | 0, c :: rest => if startsMarker (c :: rest) then cutMarkers 5 rest else c :: cutMarkers 0 rest
  | skip + 1, _ :: rest => cutMarkers skip rest

variable {txt : Text}

theorem exists_of_startsMarker (h : startsMarker txt = true) : ∃ m ∈ PASTE_MARKER, txt = m ++ txt.drop 6 := by
  obtain ⟨m, hm, hprefix⟩ := List.any_eq_true.mp h
  have hlength : m.length = 6 := by
    obtain rfl | rfl : m = PASTE_START ∨ m = PASTE_END := by simpa [PASTE_MARKER] using hm
    · rfl
    · rfl
  obtain ⟨rest, rfl⟩ := List.isPrefixOf_iff_prefix.mp hprefix
  refine ⟨m, hm, ?_⟩
  rw [← hlength, List.drop_left]

theorem reaches_cutMarkers (skip : Nat) (txt : Text) :
    Reaches PASTE_MARKER (txt.drop skip) (cutMarkers skip txt) := by
  induction txt generalizing skip with
  | nil => rw [List.drop_nil, cutMarkers]
  | cons c rest ih =>
    cases skip with
    | succ skip => exact ih skip
    | zero =>
      rw [cutMarkers, List.drop_zero]
      split_ifs with hmarker
      · obtain ⟨m, hm, htxt⟩ := exists_of_startsMarker hmarker
        exact .head ⟨[], m, hm, rest.drop 5, htxt, rfl⟩ (ih 5)
      · exact (ih 0).cons c

theorem free_of_cutMarkers (h : cutMarkers 0 txt = txt) : Free PASTE_MARKER txt := by
  induction txt with
  | nil =>
    intro before m hm after htxt
    have hpos := lead.length_pos hm
    simp at htxt
    simp [htxt.2.1] at hpos
  | cons c rest ih =>
    intro before m hm after htxt
    rw [cutMarkers] at h
    split_ifs at h with hmarker
    · have hreaches := reaches_cutMarkers 5 rest
      rw [h] at hreaches
      have hlength : (c :: rest).length ≤ (rest.drop 5).length := by
        rcases lead.eq_or_length_lt hreaches with hsame | hlt
        · exact hsame ▸ le_rfl
        · exact hlt.le
      simp at hlength
      omega
    · cases before with
      | nil =>
        refine hmarker (List.any_eq_true.mpr ⟨m, hm, ?_⟩)
        rw [htxt]
        simp
      | cons d before => exact ih (List.cons.inj h).2 before m hm after (List.cons.inj htxt).2

/-- Markers are cut out until none is left: one may only form once an inner one is gone. -/
def stripPasteMarkers (body : Text) : Text :=
  if cutMarkers 0 body = body then body else stripPasteMarkers (cutMarkers 0 body)
termination_by body.length
decreasing_by
  rename_i hmore
  exact (lead.eq_or_length_lt (reaches_cutMarkers 0 body)).resolve_left hmore

variable (body : Text)

theorem reaches_stripPasteMarkers : Reaches PASTE_MARKER body (stripPasteMarkers body) := by
  induction body using stripPasteMarkers.induct with
  | case1 body hdone =>
    rw [stripPasteMarkers, if_pos hdone]
  | case2 body hmore ih =>
    rw [stripPasteMarkers, if_neg hmore]
    exact (reaches_cutMarkers 0 body).trans ih

theorem free_stripPasteMarkers : Free PASTE_MARKER (stripPasteMarkers body) := by
  induction body using stripPasteMarkers.induct with
  | case1 body hdone =>
    rw [stripPasteMarkers, if_pos hdone]
    exact free_of_cutMarkers hdone
  | case2 body hmore ih =>
    rw [stripPasteMarkers, if_neg hmore]
    exact ih

/-! ### Surrogates -/

def isHighSurrogate (code : UInt16) : Bool := 0xd800 ≤ code && code ≤ 0xdbff

def isLowSurrogate (code : UInt16) : Bool := 0xdc00 ≤ code && code ≤ 0xdfff

/-- A low surrogate stands behind a high one, and nowhere else; `high` says what stands before the text. -/
def pairedFrom : Bool → Text → Bool
  | high, [] => !high
  | high, c :: rest => isLowSurrogate c == high && pairedFrom (isHighSurrogate c) rest

def WellFormed (txt : Text) : Prop := pairedFrom false txt = true

instance (txt : Text) : Decidable (WellFormed txt) := inferInstanceAs (Decidable (_ = true))

variable {high : Bool} {left right : Text}

theorem pairedFrom_append (hright : ∀ c ∈ right.head?, isLowSurrogate c = false) :
    pairedFrom high (left ++ right) = true ↔ pairedFrom high left = true ∧ WellFormed right := by
  induction left generalizing high with
  | nil =>
    cases right with
    | nil => cases high <;> decide
    | cons c rest =>
      have hc : isLowSurrogate c = false := hright c rfl
      simp only [List.nil_append, pairedFrom, WellFormed, hc, Bool.and_eq_true]
      cases high <;> simp
  | cons c left ih => simp only [List.cons_append, pairedFrom, Bool.and_eq_true, ih, and_assoc]

variable {c : UInt16}

theorem isHighSurrogate_of_low (h : pairedFrom high txt = true) {i : Nat} {d : UInt16} (hc : txt[i]? = some c)
    (hd : txt[i + 1]? = some d) (hlow : isLowSurrogate d = true) :
    isHighSurrogate c = true := by
  induction txt generalizing high i with
  | nil => cases hc
  | cons first rest ih =>
    simp only [pairedFrom, Bool.and_eq_true] at h
    cases i with
    | zero =>
      cases hc
      cases rest with
      | nil => cases hd
      | cons second rest =>
        cases hd
        simp only [pairedFrom, Bool.and_eq_true, beq_iff_eq, hlow] at h
        exact h.2.1.symm
    | succ i => exact ih h.2 hc hd

theorem isLowSurrogate_of_high (h : isHighSurrogate c = true) : isLowSurrogate c = false := by
  simp only [isHighSurrogate, isLowSurrogate, Bool.and_eq_true, Bool.and_eq_false_iff, decide_eq_true_eq,
    decide_eq_false_iff_not, UInt16.le_iff_toNat_le] at h ⊢
  have hbound : (0xdbff : UInt16).toNat < (0xdc00 : UInt16).toNat := by decide
  omega

theorem WellFormed.head (h : WellFormed txt) : ∀ c ∈ txt.head?, isLowSurrogate c = false := by
  cases txt with
  | nil => exact nofun
  | cons c rest =>
    intro first hfirst
    cases hfirst
    simp only [WellFormed, pairedFrom, Bool.and_eq_true, beq_iff_eq] at h
    exact h.1

theorem WellFormed.append_iff (hright : ∀ c ∈ right.head?, isLowSurrogate c = false) :
    WellFormed (left ++ right) ↔ WellFormed left ∧ WellFormed right := pairedFrom_append hright

theorem WellFormed.removes {next : Text} (h : WellFormed txt) (hstep : Removes PASTE_MARKER txt next) :
    WellFormed next := by
  obtain ⟨before, m, hm, after, rfl, rfl⟩ := hstep
  rw [List.append_assoc] at h
  have hparts : WellFormed before ∧ WellFormed after := by
    obtain rfl | rfl : m = PASTE_START ∨ m = PASTE_END := by simpa [PASTE_MARKER] using hm
    · have hsplit : WellFormed before ∧ WellFormed (PASTE_START ++ after) :=
        (WellFormed.append_iff (by simp [PASTE_START, isLowSurrogate])).mp h
      exact hsplit
    · have hsplit : WellFormed before ∧ WellFormed (PASTE_END ++ after) :=
        (WellFormed.append_iff (by simp [PASTE_END, isLowSurrogate])).mp h
      exact hsplit
  exact (WellFormed.append_iff hparts.2.head).mpr hparts

theorem WellFormed.stripPasteMarkers (h : WellFormed txt) : WellFormed (stripPasteMarkers txt) := by
  have hreaches := reaches_stripPasteMarkers txt
  generalize Paste.stripPasteMarkers txt = body at hreaches
  induction hreaches with
  | refl => exact h
  | tail _ hstep ih => exact ih.removes hstep

/-! ### Pieces -/

def isSpace (code : UInt16) : Bool :=
  let n := code.toNat
  (9 ≤ n && n ≤ 13) || n = 0x20 || n = 0xA0 || n = 0x1680 || (0x2000 ≤ n && n ≤ 0x200A) ||
    n = 0x2028 || n = 0x2029 || n = 0x202F || n = 0x205F || n = 0x3000 || n = 0xFEFF

def cleanCut (s : Text) (i : Nat) : Bool :=
  !isSpace (s.getD (i - 1) 0) && !isSpace (s.getD i 0) && !isLowSurrogate (s.getD i 0)

/-- The cut goes back from `start + k`, as long as it is not clean and in the back half of the window. -/
def searchCut (body : Text) (start cap : Nat) : Nat → Nat
  | 0 => start
  | k + 1 =>
    if cap < 2 * (k + 1) && !cleanCut body (start + (k + 1)) then searchCut body start cap k else start + (k + 1)

def nextCut (start cap : Nat) : Nat :=
  let cut := searchCut body start cap cap
  if 2 * (cut - start) ≤ cap then
    if isLowSurrogate (body.getD (start + cap) 0) then start + cap - 1 else start + cap
  else cut

theorem searchCut_cases (start cap k : Nat) :
    start ≤ searchCut body start cap k ∧ searchCut body start cap k ≤ start + k ∧
      (cap < 2 * (searchCut body start cap k - start) ∧ cleanCut body (searchCut body start cap k) = true ∨
        2 * (searchCut body start cap k - start) ≤ cap ∧
          ∀ j ≤ k, cap < 2 * j → cleanCut body (start + j) = false) := by
  induction k with
  | zero => exact ⟨le_rfl, le_rfl, .inr ⟨by simp [searchCut], fun j hj hback => by omega⟩⟩
  | succ k ih =>
    rw [searchCut]
    by_cases hmore : (cap < 2 * (k + 1) && !cleanCut body (start + (k + 1))) = true
    · rw [if_pos hmore]
      rw [Bool.and_eq_true, decide_eq_true_eq, Bool.not_eq_true'] at hmore
      obtain ⟨hle, hge, hclean | ⟨hfront, hnone⟩⟩ := ih
      · exact ⟨hle, by omega, .inl hclean⟩
      · refine ⟨hle, by omega, .inr ⟨hfront, fun j hj hback => ?_⟩⟩
        obtain hj | rfl : j ≤ k ∨ j = k + 1 := by omega
        · exact hnone j hj hback
        · exact hmore.2
    · rw [if_neg hmore]
      rw [Bool.and_eq_true, decide_eq_true_eq, Bool.not_eq_true', not_and, Bool.not_eq_false] at hmore
      refine ⟨by omega, by omega, ?_⟩
      by_cases hback : cap < 2 * (k + 1)
      · exact .inl ⟨by omega, hmore hback⟩
      · exact .inr ⟨by omega, fun j hj hlate => by omega⟩

variable {body : Text} {start cap : Nat}

theorem start_lt_nextCut (hcap : 2 ≤ cap) :
    start < nextCut body start cap ∧ nextCut body start cap ≤ start + cap := by
  obtain ⟨hle, hge, -⟩ := searchCut_cases body start cap cap
  simp only [nextCut]
  split_ifs <;> omega

theorem nextCut_spec (hcap : 2 ≤ cap) (hbody : WellFormed body) (hlong : start + cap < body.length) :
    isLowSurrogate (body.getD (nextCut body start cap) 0) = false ∧ (cleanCut body (nextCut body start cap) = true ∨
        ∀ k ≤ cap, cap < 2 * k → cleanCut body (start + k) = false) := by
  obtain ⟨hle, hge, ⟨hback, hclean⟩ | ⟨hfront, hnone⟩⟩ := searchCut_cases body start cap cap
  · simp only [nextCut]
    rw [if_neg (by omega)]
    refine ⟨?_, .inl hclean⟩
    simp only [cleanCut, Bool.and_eq_true, Bool.not_eq_true'] at hclean
    exact hclean.2
  · simp only [nextCut]
    rw [if_pos hfront]
    split_ifs with hlow
    · refine ⟨?_, .inr hnone⟩
      obtain ⟨c, hc⟩ : ∃ c, body[start + cap - 1]? = some c := ⟨_, List.getElem?_eq_getElem (by omega)⟩
      obtain ⟨d, hd⟩ : ∃ d, body[start + cap]? = some d := ⟨_, List.getElem?_eq_getElem hlong⟩
      rw [List.getD_eq_getElem?_getD, hd] at hlow
      rw [List.getD_eq_getElem?_getD, hc]
      have hnext : body[start + cap - 1 + 1]? = some d := by
        rw [show start + cap - 1 + 1 = start + cap by omega, hd]
      exact isLowSurrogate_of_high (isHighSurrogate_of_low hbody hc hnext hlow)
    · exact ⟨by simpa using hlow, .inr hnone⟩

def pieces (body : Text) (cap : Nat) (hcap : 2 ≤ cap) (start : Nat) : List Text :=
  if start + cap < body.length then
    (body.take (nextCut body start cap)).drop start :: pieces body cap hcap (nextCut body start cap)
  else if start < body.length then [body.drop start] else []
termination_by body.length - start
decreasing_by
  have hcut : start < nextCut body start cap := (start_lt_nextCut hcap).1
  omega

def wrap (piece : Text) : Text := PASTE_START ++ piece ++ PASTE_END

def bracketedPasteChunks (txt : Text) (cap : Nat) (hcap : 2 ≤ cap) : List Text :=
  (pieces (stripPasteMarkers txt) cap hcap 0).map wrap

structure Cut (body : Text) (cap start : Nat) (pieces : List Text) : Prop where
  lossless : pieces.flatten = body.drop start
  size : ∀ piece ∈ pieces, 1 ≤ piece.length ∧ piece.length ≤ cap
  wellFormed : ∀ piece ∈ pieces, WellFormed piece
  /-- Every cut is clean, or the back half of the window from the piece's start has no clean cut. -/
  seams : ∀ before piece next after, pieces = before ++ piece :: next :: after →
    cleanCut body (start + before.flatten.length + piece.length) = true ∨
      ∀ k ≤ cap, cap < 2 * k → cleanCut body (start + before.flatten.length + k) = false

theorem cut_pieces (hcap : 2 ≤ cap) (hbody : WellFormed body) (start : Nat) (hstart : WellFormed (body.drop start)) :
    Cut body cap start (pieces body cap hcap start) := by
  fun_induction pieces body cap hcap start with
  | case1 start hlong ih =>
    obtain ⟨hlt, hle⟩ : start < nextCut body start cap ∧ nextCut body start cap ≤ start + cap := start_lt_nextCut hcap
    obtain ⟨hlow, hclean⟩ := nextCut_spec hcap hbody hlong
    generalize nextCut body start cap = cut at *
    have hlength : ((body.take cut).drop start).length = cut - start := by
      rw [List.length_drop, List.length_take]
      omega
    have hsplit : body.drop start = (body.take cut).drop start ++ body.drop cut := by
      rw [List.drop_take]
      have hdrop : body.drop cut = (body.drop start).drop (cut - start) := by
        rw [List.drop_drop, show start + (cut - start) = cut by omega]
      rw [hdrop, List.take_append_drop]
    have hhead : ∀ c ∈ (body.drop cut).head?, isLowSurrogate c = false := by
      intro c hc
      rw [List.head?_drop] at hc
      rw [List.getD_eq_getElem?_getD, hc] at hlow
      exact hlow
    rw [hsplit] at hstart
    obtain ⟨hpiece, hrest⟩ := (WellFormed.append_iff hhead).mp hstart
    have h := ih hrest
    refine ⟨?_, List.forall_mem_cons.mpr ⟨by omega, h.size⟩, List.forall_mem_cons.mpr ⟨hpiece, h.wellFormed⟩,
      fun before piece next after hpieces => ?_⟩
    · rw [List.flatten_cons, h.lossless, hsplit]
    · cases before with
      | nil =>
        obtain ⟨rfl, -⟩ := List.cons.inj hpieces
        rw [hlength, List.flatten_nil, List.length_nil, Nat.add_zero, show start + (cut - start) = cut by omega]
        exact hclean
      | cons first before =>
        obtain ⟨rfl, hlater⟩ := List.cons.inj hpieces
        have hseam := h.seams before piece next after hlater
        rw [List.flatten_cons, List.length_append, hlength,
          show start + (cut - start + before.flatten.length) = cut + before.flatten.length by omega]
        exact hseam
  | case2 start hshort hrest =>
    refine ⟨by simp, ?_, ?_, fun before piece next after hpieces => ?_⟩
    · rintro piece hpiece
      obtain rfl := List.mem_singleton.mp hpiece
      rw [List.length_drop]
      omega
    · rintro piece hpiece
      exact List.mem_singleton.mp hpiece ▸ hstart
    · have hlength := congrArg List.length hpieces
      simp at hlength
      omega
  | case3 start hshort hend =>
    refine ⟨?_, nofun, nofun, fun before piece next after hpieces => ?_⟩
    · rw [List.drop_eq_nil_of_le (by omega), List.flatten_nil]
    · simp at hpieces

/-! ### What is typed -/

theorem marker_of_wrapped {pieces : List Text} (hfree : ∀ piece ∈ pieces,
      Free PASTE_MARKER piece) {before m after : Text}
    (hm : m ∈ PASTE_MARKER) (h : (pieces.map wrap).flatten = before ++ m ++ after) :
    ∃ done piece rest, pieces = done ++ piece :: rest ∧ (before = (done.map wrap).flatten ∧ m = PASTE_START ∨
        before = (done.map wrap).flatten ++ PASTE_START ++ piece ∧ m = PASTE_END) := by
  induction pieces generalizing before with
  | nil =>
    have hpos := lead.length_pos hm
    have hlength := congrArg List.length h
    simp at hlength
    omega
  | cons piece rest ih =>
    have hstart : PASTE_START ∈ PASTE_MARKER := List.mem_cons_self ..
    have hend : PASTE_END ∈ PASTE_MARKER := List.mem_cons_of_mem _ (List.mem_cons_self ..)
    have hwrap : [] ++ PASTE_START ++ (piece ++ (PASTE_END ++ (rest.map wrap).flatten)) = before ++ m ++ after := by
      rw [← h]
      simp [wrap]
    obtain ⟨rfl, rfl, -⟩ | ⟨k, rfl, hbody⟩ | ⟨k, hnone, -⟩ := lead.apart hstart hm hwrap
    · exact ⟨[], piece, rest, rfl, .inl ⟨rfl, rfl⟩⟩
    · obtain ⟨k', hinside, -⟩ | ⟨k', rfl, hbehind⟩ := lead.split hm hbody (.inr ⟨_, rfl⟩)
      · exact absurd hinside (hfree piece (List.mem_cons_self ..) k m hm k')
      · have hclose : [] ++ PASTE_END ++ (rest.map wrap).flatten = k' ++ m ++ after := hbehind
        obtain ⟨rfl, rfl, -⟩ | ⟨l, rfl, hrest⟩ | ⟨l, hnone, -⟩ := lead.apart hend hm hclose
        · exact ⟨[], piece, rest, rfl, .inr ⟨by simp, rfl⟩⟩
        · obtain ⟨done, other, later, rfl, hwhere⟩ :=
            ih (fun p hp => hfree p (List.mem_cons_of_mem _ hp)) hrest
          refine ⟨piece :: done, other, later, rfl, ?_⟩
          obtain ⟨rfl, rfl⟩ | ⟨rfl, rfl⟩ := hwhere
          · exact .inl ⟨by simp [wrap], rfl⟩
          · exact .inr ⟨by simp [wrap], rfl⟩
        · have hpos := lead.length_pos hm
          have hlength := congrArg List.length hnone
          simp at hlength
          omega
    · have hpos := lead.length_pos hm
      have hlength := congrArg List.length hnone
      simp at hlength
      omega

/-- Every text without lone surrogates is typed safely and without loss: the pieces are, one behind the other,
the only text without markers that cutting out markers leads to; no piece is empty, longer than the cap or
splits a surrogate pair; the only markers typed are the wrappers; and every cut lies between two characters
that are not white space, unless the back half of its window has no such place. -/
theorem chunks_safe (txt : Text) (cap : Nat) (hcap : 2 ≤ cap) (htxt : WellFormed txt) :
    ∃ pieces, bracketedPasteChunks txt cap hcap = pieces.map wrap ∧ Cut (stripPasteMarkers txt) cap 0 pieces ∧
      pieces.flatten = stripPasteMarkers txt ∧
      (∀ body, Reaches PASTE_MARKER txt body ∧ Free PASTE_MARKER body ↔ body = stripPasteMarkers txt) ∧
      ∀ before, ∀ m ∈ PASTE_MARKER, ∀ after, (bracketedPasteChunks txt cap hcap).flatten = before ++ m ++ after →
        ∃ done piece rest, pieces = done ++ piece :: rest ∧ (before = (done.map wrap).flatten ∧ m = PASTE_START ∨
            before = (done.map wrap).flatten ++ PASTE_START ++ piece ∧ m = PASTE_END) := by
  have hcut : Cut (stripPasteMarkers txt) cap 0 (pieces (stripPasteMarkers txt) cap hcap 0) :=
    cut_pieces hcap htxt.stripPasteMarkers 0 htxt.stripPasteMarkers
  have hreaches := reaches_stripPasteMarkers txt
  have hfree := free_stripPasteMarkers txt
  refine ⟨_, rfl, hcut, hcut.lossless, fun body => ⟨fun h => ?_, fun h => h ▸ ⟨hreaches, hfree⟩⟩,
    fun before m hm after h => ?_⟩
  · exact lead.unique h.1 hreaches h.2 hfree
  · refine marker_of_wrapped (fun piece hpiece => Free.of_infix hfree ?_) hm h
    obtain ⟨before, after, hpieces⟩ := List.append_of_mem hpiece
    rw [← hcut.lossless.trans (List.drop_zero ..), hpieces]
    exact ⟨before.flatten, after.flatten, by simp⟩

/-- A marker that only forms once another one is gone, and a text that is cut in two. -/
theorem chunks_safe_nested : ∃ pieces : List Text, bracketedPasteChunks
    ([0x1b, 0x5b, 0x32] ++ PASTE_START ++ [0x30, 0x31, 0x7e, 0x61, 0xd83d, 0xde00]) 2 le_rfl = pieces.map wrap ∧
      ∀ piece ∈ pieces, 1 ≤ piece.length ∧ piece.length ≤ 2 := by
  obtain ⟨pieces, hpieces, hcut, -⟩ := chunks_safe
    ([0x1b, 0x5b, 0x32] ++ PASTE_START ++ [0x30, 0x31, 0x7e, 0x61, 0xd83d, 0xde00]) 2 le_rfl (by decide)
  exact ⟨pieces, hpieces, hcut.size⟩

end Sightr.Paste
