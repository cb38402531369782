import Mathlib.Data.List.DropRight
import Mathlib.Data.Rat.Floor
import Sightr.Lib.JsText
import Sightr.Lib.Separated

/-!
# The prompt binding

`shared/prompt-binding.ts`, with `boundTextOf` of `shared/harness/dialog-kit.ts`: a screen's text is cut into lines
that survive a redraw, a request is bound to the last of them, and an answer is sent only while they still stand near
the end of the screen.
-/

namespace Sightr.PromptBinding

open JsText

abbrev Line := List Char

def PROMPT_TAIL_LINES : Nat := 6
def BOUND_TEXT_LINES : Nat := 12

def isParameter (c : Char) : Bool := '0' ≤ c && c ≤ '?'

/-- An intermediate byte of a control sequence, from the blank to the slash. -/
def isIntermediate (c : Char) : Bool := ' ' ≤ c && c ≤ '/'

/-- What follows the introducer of a control sequence, if it ends in `m`. -/
def sgrBody (s : List Char) : Option (List Char) :=
  match (s.dropWhile isParameter).dropWhile isIntermediate with
  | 'm' :: rest => some rest
  | _ => none

/-- What follows the SGR sequence that a text starts with. -/
def sgrTail : List Char → Option (List Char)
  | '\x1b' :: '[' :: s => sgrBody s
  | '\x9b' :: s => sgrBody s
  | _ => none

variable {s : List Char}

variable {rest : List Char}

theorem exists_of_sgrBody (h : sgrBody s = some rest) : ∃ front, s = front ++ 'm' :: rest := by
  unfold sgrBody at h
  split at h
  · rename_i after heq
    cases h
    refine ⟨s.takeWhile isParameter ++ (s.dropWhile isParameter).takeWhile isIntermediate, ?_⟩
    rw [← heq, List.append_assoc, List.takeWhile_append_dropWhile, List.takeWhile_append_dropWhile]
  · cases h

theorem exists_of_sgrTail (h : sgrTail s = some rest) : ∃ front, s = front ++ 'm' :: rest := by
  unfold sgrTail at h
  split at h
  · obtain ⟨front, rfl⟩ := exists_of_sgrBody h
    exact ⟨'\x1b' :: '[' :: front, rfl⟩
  · obtain ⟨front, rfl⟩ := exists_of_sgrBody h
    exact ⟨'\x9b' :: front, rfl⟩
  · cases h

theorem length_sgrTail (h : sgrTail s = some rest) : rest.length < s.length := by
  obtain ⟨front, rfl⟩ := exists_of_sgrTail h
  simp only [List.length_append, List.length_cons]
  omega

def stripSgr (text : List Char) : List Char :=
  match text with
  | [] => []
  | c :: s =>
    match _ : sgrTail (c :: s) with
    | some rest => stripSgr rest
    | none => c :: stripSgr s
termination_by text.length
decreasing_by
  · exact length_sgrTail ‹_›
  · simp

def foldLineEnds : List Char → List Char
  | [] => []
  | '\r' :: '\n' :: s => '\n' :: foldLineEnds s
  | '\r' :: s => '\n' :: foldLineEnds s
  | c :: s => c :: foldLineEnds s

variable (text : List Char)

/-- The rows of a screen, as they are cut after the SGR sequences are gone. -/
def rowsOf : List Line := (foldLineEnds (stripSgr text)).splitOn '\n'

def isBullet (c : Char) : Bool := c = '●' || c = '⏺'

/-- The white space in front of the bullet a row starts with, and what follows the bullet. -/
def bulletOf (row : Line) : Option (Line × Line) :=
  match row.dropWhile isSpace with
  | c :: rest => if isBullet c then some (row.takeWhile isSpace, rest) else none
  | [] => none

def blankBullet (row : Line) : Line :=
  match bulletOf row with
  | some (lead, ' ' :: rest) => lead ++ ' ' :: ' ' :: rest
  | _ => row

def normalizeLine (row : Line) : Line := trimEnd (blankBullet row)

def normalizeRows (rows : List Line) : List Line := (rows.map normalizeLine).filter (0 < ·.length)

def normalizePromptRegion : List Line := normalizeRows (rowsOf text)

inductive PromptBindingFailure
  | empty
  | notFound
  | notInTail
  deriving DecidableEq

/-- Do the expected lines stand from line `start` on? -/
def matchesAt (freshLines expectedLines : List Line) (start : Nat) : Bool :=
  (List.range expectedLines.length).all fun offset => freshLines[start + offset]? = expectedLines[offset]?

def verifyExpectedPrompt (freshText expected : List Char) (tailLines : ℚ) : Except PromptBindingFailure Unit :=
  let freshLines := normalizePromptRegion freshText
  let expectedLines := normalizePromptRegion expected
  if expectedLines.length = 0 then .error .empty
  else
    -- A later match replaces an earlier one.
    let starts := List.range (freshLines.length + 1 - expectedLines.length)
    match (starts.filter (matchesAt freshLines expectedLines)).getLast? with
    | none => .error .notFound
    | some lastMatch =>
      let boundedTailLines := ⌊tailLines⌋.toNat
      let tailStart := freshLines.length - boundedTailLines
      let matchEnd := lastMatch + expectedLines.length - 1
      if matchEnd < tailStart then .error .notInTail else .ok ()

def lastLines (n : Nat) (lines : List Line) : List Line := lines.drop (lines.length - n)

def joinLines (lines : List Line) : List Char := List.intercalate ['\n'] lines

def boundLines : List Line := lastLines BOUND_TEXT_LINES (normalizePromptRegion text)

def boundTextOf : List Char := joinLines (boundLines text)

/-! ### The end of a row -/

variable {w : Line}

theorem trimEnd_append_of_space (hw : ∀ c ∈ w, isSpace c) (s : Line) : trimEnd (s ++ w) = trimEnd s := by
  rw [trimEnd, List.reverse_append, List.dropWhile_append_of_pos fun c hc => hw c (List.mem_reverse.mp hc), trimEnd]

theorem exists_trimEnd (s : Line) : ∃ w, (∀ c ∈ w, isSpace c) ∧ s = trimEnd s ++ w :=
  ⟨s.rtakeWhile isSpace, fun _ => List.mem_rtakeWhile_imp, List.rdropWhile_append_rtakeWhile.symm⟩

theorem trimEnd_trimEnd (s : Line) : trimEnd (trimEnd s) = trimEnd s := List.rdropWhile_idempotent isSpace s

variable {t : Line}

theorem trimEnd_append (h : trimEnd t ≠ []) (s : Line) : trimEnd (s ++ t) = s ++ trimEnd t := by
  obtain ⟨w, hw, heq⟩ := exists_trimEnd t
  have hlast := List.rdropWhile_last_not isSpace t h
  rw [heq, ← List.append_assoc, trimEnd_append_of_space hw, trimEnd_append_of_space hw, trimEnd_trimEnd]
  refine List.rdropWhile_eq_self_iff.mpr fun hne => ?_
  rwa [List.getLast_append_of_ne_nil _ h]

theorem trimEnd_eq_of_append {s : Line} (h : trimEnd (s ++ t) = s ++ t) (ht : t ≠ []) : trimEnd t = t := by
  by_cases hnil : trimEnd t = []
  · obtain ⟨w, hw, heq⟩ := exists_trimEnd t
    rw [hnil, List.nil_append] at heq
    rw [heq, trimEnd_append_of_space hw] at h
    have hlength := (List.rdropWhile_prefix isSpace s).length_le
    have hsame := congrArg List.length h
    rw [List.length_append] at hsame
    have hpos := List.length_pos_of_ne_nil ht
    rw [heq] at hpos
    exact absurd hlength (by
      change ¬(trimEnd s).length ≤ s.length
      omega)
  · exact List.append_cancel_left ((trimEnd_append hnil s).symm.trans h)

/-! ### The bullet of a row -/

variable {c : Char}

theorem isSpace_of_isBullet (h : isBullet c) : isSpace c = false := by
  obtain rfl | rfl : c = '●' ∨ c = '⏺' := by simpa [isBullet] using h
  · decide
  · decide

variable {row lead rest : Line}

theorem exists_of_bulletOf (h : bulletOf row = some (lead, rest)) :
    ∃ bullet, isBullet bullet ∧ (∀ c ∈ lead, isSpace c) ∧ row = lead ++ bullet :: rest := by
  unfold bulletOf at h
  split at h
  · rename_i c after hdrop
    split_ifs at h with hbullet
    obtain ⟨rfl, rfl⟩ := Prod.mk.inj (Option.some.inj h)
    refine ⟨c, hbullet, fun x hx => List.mem_takeWhile_imp hx, ?_⟩
    rw [← hdrop, List.takeWhile_append_dropWhile]
  · cases h

variable {bullet : Char}

theorem bulletOf_lead (hlead : ∀ c ∈ lead, isSpace c) (hbullet : isBullet bullet) (rest : Line) :
    bulletOf (lead ++ bullet :: rest) = some (lead, rest) := by
  have hstop := isSpace_of_isBullet hbullet
  rw [bulletOf, List.dropWhile_append_of_pos hlead, List.takeWhile_append_of_pos hlead]
  simp [hstop, hbullet]

theorem bulletOf_append_of_space (hw : ∀ c ∈ w, isSpace c) (s : Line) :
    bulletOf (w ++ s) = (bulletOf s).map fun p => (w ++ p.1, p.2) := by
  rw [bulletOf, List.dropWhile_append_of_pos hw, List.takeWhile_append_of_pos hw, bulletOf]
  split
  · split_ifs
    · rfl
    · rfl
  · rfl

theorem bulletOf_append_none {s : Line} (hw : ∀ c ∈ w, isSpace c) (h : bulletOf s = none) :
    bulletOf (s ++ w) = none := by
  have hspaces : w.dropWhile isSpace = [] := List.dropWhile_eq_nil_iff.mpr hw
  unfold bulletOf at h ⊢
  rw [List.dropWhile_append]
  cases hdrop : s.dropWhile isSpace with
  | nil => simp [hspaces]
  | cons c rest =>
    simp only [hdrop] at h
    split_ifs at h with hbullet
    simp [hbullet]

theorem bulletOf_append_some {s : Line} (h : bulletOf s = some (lead, rest)) :
    bulletOf (s ++ w) = some (lead, rest ++ w) := by
  obtain ⟨bullet, hbullet, hlead, rfl⟩ := exists_of_bulletOf h
  rw [List.append_assoc, List.cons_append]
  exact bulletOf_lead hlead hbullet _

theorem blankBullet_of_some (h : bulletOf row = some (lead, ' ' :: rest)) :
    blankBullet row = lead ++ ' ' :: ' ' :: rest := by
  simp only [blankBullet, h]

theorem blankBullet_of_ne (h : ∀ lead rest, bulletOf row ≠ some (lead, ' ' :: rest)) : blankBullet row = row := by
  unfold blankBullet
  split
  · exact absurd ‹_› (h _ _)
  · rfl

/-! ### What a redraw changes -/

/-- Two rows that differ in the white space at the end, or in a status bullet, with text after it, that one shows and
the other leaves blank. -/
inductive SameRow : Line → Line → Prop
  | padded {row row' : Line} (h : trimEnd row = trimEnd row') : SameRow row row'
  | blanked {row row' lead rest : Line} {bullet : Char} (hlead : ∀ c ∈ lead, isSpace c) (hbullet : isBullet bullet)
      (htext : trimEnd rest ≠ []) (hrow : trimEnd row = trimEnd (lead ++ bullet :: ' ' :: rest))
      (hrow' : trimEnd row' = trimEnd (lead ++ ' ' :: ' ' :: rest)) : SameRow row row'
  | shown {row row' lead rest : Line} {bullet : Char} (hlead : ∀ c ∈ lead, isSpace c) (hbullet : isBullet bullet)
      (htext : trimEnd rest ≠ []) (hrow : trimEnd row = trimEnd (lead ++ ' ' :: ' ' :: rest))
      (hrow' : trimEnd row' = trimEnd (lead ++ bullet :: ' ' :: rest)) : SameRow row row'

/-- Two screens whose rows are the same but for blank ones. -/
inductive SameRows : List Line → List Line → Prop
  | nil : SameRows [] []
  | cons {row row' : Line} {rows rows' : List Line} (hrow : SameRow row row') (hrows : SameRows rows rows') :
      SameRows (row :: rows) (row' :: rows')
  | lost {row : Line} {rows rows' : List Line} (hblank : trimEnd row = []) (hrows : SameRows rows rows') :
      SameRows (row :: rows) rows'
  | gained {row : Line} {rows rows' : List Line} (hblank : trimEnd row = []) (hrows : SameRows rows rows') :
      SameRows rows (row :: rows')

/-- Two texts that differ in SGR sequences, line ends, blank rows, and what `SameRow` allows. -/
def Redrawn (text fresh : List Char) : Prop := SameRows (rowsOf text) (rowsOf fresh)

/-- A row that starts with no status bullet, whatever follows at its end. -/
structure Plain (row : Line) : Prop where
  lone : ∀ lead, bulletOf row ≠ some (lead, [])
  lit : ∀ lead rest, bulletOf row ≠ some (lead, ' ' :: rest)

/-- A row that reads the same however it is redrawn: no SGR sequence is left in it, and if it starts with a status
bullet, then text follows that does not start with another, and the bullet has no two blanks in front. -/
structure Settled (row : Line) : Prop where
  sgr : stripSgr (trimEnd row) = trimEnd row
  lone : ∀ lead, bulletOf (trimEnd row) ≠ some (lead, [])
  lit : ∀ lead rest, bulletOf (trimEnd row) = some (lead, ' ' :: rest) → Plain rest ∧ ¬[' ', ' '] <:+: lead

/-- The bound lines come from settled rows, with fewer rows than the tail has after them. -/
def BoundSettled : Prop :=
  boundLines text ≠ [] ∧ ∃ front bound back, rowsOf text = front ++ bound ++ back ∧
    normalizeRows bound = boundLines text ∧ (∀ row ∈ bound, Settled row) ∧
      (back.filter (trimEnd · ≠ [])).length < PROMPT_TAIL_LINES

/-! ### A settled row -/

variable {row row' : Line}

theorem plain_of_none (h : bulletOf row = none) : Plain row := by
  refine ⟨fun lead hfound => ?_, fun lead rest hfound => ?_⟩
  · cases h.symm.trans hfound
  · cases h.symm.trans hfound

theorem Plain.append (h : Plain rest) (hlead : ∀ c ∈ lead, isSpace c) : Plain (lead ++ rest) := by
  have hmap := bulletOf_append_of_space hlead rest
  refine ⟨fun lead' hfound => ?_, fun lead' rest' hfound => ?_⟩
  · rw [hfound, eq_comm, Option.map_eq_some_iff] at hmap
    obtain ⟨⟨inner, after⟩, hinner, hsame⟩ := hmap
    obtain rfl : after = [] := (Prod.mk.inj hsame).2
    exact h.lone inner hinner
  · rw [hfound, eq_comm, Option.map_eq_some_iff] at hmap
    obtain ⟨⟨inner, after⟩, hinner, hsame⟩ := hmap
    obtain rfl : after = ' ' :: rest' := (Prod.mk.inj hsame).2
    exact h.lit inner rest' hinner

theorem normalizeLine_of_plain (h : Plain (trimEnd row)) : normalizeLine row = trimEnd row := by
  obtain ⟨w, hw, heq⟩ := exists_trimEnd row
  have hne : ∀ lead rest, bulletOf row ≠ some (lead, ' ' :: rest) := by
    intro lead rest hlit
    rw [heq] at hlit
    cases hfound : bulletOf (trimEnd row) with
    | none => exact absurd hlit (by simp [bulletOf_append_none hw hfound])
    | some found =>
      obtain ⟨lead', rest'⟩ := found
      cases rest' with
      | nil => exact h.lone lead' hfound
      | cons c rest' =>
        rw [bulletOf_append_some hfound, List.cons_append] at hlit
        obtain ⟨rfl, -⟩ := List.cons.inj (Prod.mk.inj (Option.some.inj hlit)).2
        exact h.lit lead' rest' hfound
  rw [normalizeLine, blankBullet_of_ne hne]

theorem normalizeLine_of_lit (hlead : ∀ c ∈ lead, isSpace c) (hbullet : isBullet bullet) (htext : trimEnd rest ≠ [])
    (h : trimEnd row = trimEnd (lead ++ bullet :: ' ' :: rest)) :
    normalizeLine row = lead ++ ' ' :: ' ' :: trimEnd rest := by
  have hkeep : ∀ c : Char, trimEnd (lead ++ c :: ' ' :: rest) = lead ++ c :: ' ' :: trimEnd rest := by
    intro c
    simpa using trimEnd_append htext (lead ++ [c, ' '])
  obtain ⟨w, hw, heq⟩ := exists_trimEnd row
  rw [h, hkeep, List.append_assoc] at heq
  have hfound : bulletOf row = some (lead, ' ' :: (trimEnd rest ++ w)) := by
    rw [heq]
    exact bulletOf_lead hlead hbullet _
  have hdrop : lead ++ ' ' :: ' ' :: (trimEnd rest ++ w) = (lead ++ ' ' :: ' ' :: trimEnd rest) ++ w := by simp
  have htrim : trimEnd (lead ++ ' ' :: ' ' :: trimEnd rest) = lead ++ ' ' :: ' ' :: trimEnd rest := by
    rw [← hkeep, trimEnd_trimEnd]
  rw [normalizeLine, blankBullet_of_some hfound, hdrop, trimEnd_append_of_space hw, htrim]

theorem Settled.cases (h : Settled row) : Plain (trimEnd row) ∨ ∃ lead bullet rest, (∀ c ∈ lead, isSpace c) ∧
    isBullet bullet ∧ trimEnd rest = rest ∧ rest ≠ [] ∧ Plain rest ∧ trimEnd row = lead ++ bullet :: ' ' :: rest := by
  by_cases hlit : ∃ lead rest, bulletOf (trimEnd row) = some (lead, ' ' :: rest)
  · obtain ⟨lead, rest, hfound⟩ := hlit
    obtain ⟨bullet, hbullet, hlead, heq⟩ := exists_of_bulletOf hfound
    have hwhole : trimEnd ((lead ++ [bullet]) ++ ' ' :: rest) = (lead ++ [bullet]) ++ ' ' :: rest := by
      rw [List.append_assoc, List.singleton_append, ← heq, trimEnd_trimEnd]
    have hafter := trimEnd_eq_of_append hwhole (List.cons_ne_nil _ _)
    have hne : rest ≠ [] := by
      rintro rfl
      exact absurd hafter (by decide)
    exact .inr ⟨lead, bullet, rest, hlead, hbullet, trimEnd_eq_of_append (s := [' ']) hafter hne, hne,
      (h.lit lead rest hfound).1, heq⟩
  · exact .inl ⟨h.lone, fun lead rest hfound => hlit ⟨lead, rest, hfound⟩⟩

theorem Settled.normalizeLine_sameRow (h : Settled row) (hsame : SameRow row row') :
    normalizeLine row' = normalizeLine row := by
  have htext : ∀ {lead rest : Line} {c : Char}, trimEnd rest ≠ [] →
      trimEnd (lead ++ c :: ' ' :: rest) = lead ++ c :: ' ' :: trimEnd rest := by
    intro lead rest c hne
    simpa using trimEnd_append hne (lead ++ [c, ' '])
  have hspace : ∀ {lead : Line}, (∀ c ∈ lead, isSpace c) → ∀ c ∈ lead ++ [' ', ' '], isSpace c := by
    intro lead hlead c hc
    rcases List.mem_append.mp hc with hc | hc
    · exact hlead c hc
    · obtain rfl : c = ' ' := by simpa using hc
      decide
  cases hsame with
  | padded hpad =>
    obtain hplain | ⟨lead, bullet, rest, hlead, hbullet, htrim, hne, -, heq⟩ := h.cases
    · rw [normalizeLine_of_plain hplain, normalizeLine_of_plain (hpad ▸ hplain), hpad]
    · have hrow : trimEnd row = trimEnd (lead ++ bullet :: ' ' :: rest) := by
        rw [heq, htext (by rwa [htrim]), htrim]
      rw [normalizeLine_of_lit hlead hbullet (by rwa [htrim]) hrow,
        normalizeLine_of_lit hlead hbullet (by rwa [htrim]) (hpad ▸ hrow)]
  | @blanked lead rest bullet hlead hbullet hne hrow hrow' =>
    have hplain : Plain (trimEnd rest) :=
      (h.lit lead _ (by rw [hrow, htext hne]; exact bulletOf_lead hlead hbullet _)).1
    have hplain' : Plain (trimEnd row') := by
      rw [hrow', htext hne]
      simpa using hplain.append (hspace hlead)
    rw [normalizeLine_of_lit hlead hbullet hne hrow, normalizeLine_of_plain hplain', hrow', htext hne]
  | @shown lead rest bullet hlead hbullet hne hrow hrow' =>
    have hplain : Plain (trimEnd row) := by
      refine ⟨h.lone, fun lead' rest' hfound => (h.lit lead' rest' hfound).2 ?_⟩
      have hmap := bulletOf_append_of_space (hspace hlead) (trimEnd rest)
      rw [List.append_assoc, List.cons_append, List.singleton_append, ← htext hne, ← hrow, hfound, eq_comm,
        Option.map_eq_some_iff] at hmap
      obtain ⟨⟨inner, after⟩, -, hpair⟩ := hmap
      exact ⟨lead, inner, (Prod.mk.inj hpair).1⟩
    rw [normalizeLine_of_plain hplain, normalizeLine_of_lit hlead hbullet hne hrow', hrow, htext hne]

/-! ### Reading a line again -/

def isInert (c : Char) : Bool := c ≠ '\x1b' && c ≠ '\x9b'

theorem sgrTail_of_inert (h : isInert c) (s : List Char) : sgrTail (c :: s) = none := by
  unfold sgrTail
  split
  · exact absurd h (by simp_all [isInert])
  · exact absurd h (by simp_all [isInert])
  · rfl

theorem stripSgr_cons_of_none (h : sgrTail (c :: s) = none) : stripSgr (c :: s) = c :: stripSgr s := by
  rw [stripSgr]
  split
  · rename_i heq
    rw [h] at heq
    cases heq
  · rfl

theorem stripSgr_cons_of_some {rest : List Char} (h : sgrTail (c :: s) = some rest) :
    stripSgr (c :: s) = stripSgr rest := by
  rw [stripSgr]
  split
  · rename_i heq
    rw [h] at heq
    rw [Option.some.inj heq]
  · rename_i heq
    rw [h] at heq
    cases heq

theorem stripSgr_append_of_inert {front : List Char} (h : ∀ c ∈ front, isInert c) (s : List Char) :
    stripSgr (front ++ s) = front ++ stripSgr s := by
  induction front with
  | nil => rfl
  | cons c front ih =>
    obtain ⟨hc, hfront⟩ := List.forall_mem_cons.mp h
    rw [List.cons_append, stripSgr_cons_of_none (sgrTail_of_inert hc _), ih hfront, List.cons_append]

theorem isInert_of_isSpace (h : isSpace c) : isInert c := by
  have hne : c ≠ '\x1b' ∧ c ≠ '\x9b' := by
    refine ⟨?_, ?_⟩
    · rintro rfl
      exact absurd h (by decide)
    · rintro rfl
      exact absurd h (by decide)
  simp [isInert, hne.1, hne.2]

theorem isInert_of_isBullet (h : isBullet c) : isInert c := by
  obtain rfl | rfl : c = '●' ∨ c = '⏺' := by simpa [isBullet] using h
  · decide
  · decide

theorem dropWhile_append_cons_of_neg {p : Char → Bool} (h : p c = false) (s rest : List Char) :
    (s ++ c :: rest).dropWhile p = s.dropWhile p ++ c :: rest := by
  rw [List.dropWhile_append]
  split_ifs with hnil
  · rw [List.isEmpty_iff.mp hnil, List.nil_append, List.dropWhile_cons_of_neg (by simp [h])]
  · rfl

theorem sgrBody_append (s rest : List Char) : sgrBody (s ++ '\n' :: rest) = (sgrBody s).map (· ++ '\n' :: rest) := by
  rw [sgrBody, dropWhile_append_cons_of_neg (by decide), dropWhile_append_cons_of_neg (by decide), sgrBody]
  cases (s.dropWhile isParameter).dropWhile isIntermediate with
  | nil => rfl
  | cons c after =>
    by_cases hc : c = 'm'
    · subst hc
      rfl
    · simp [hc]

theorem sgrTail_append (s rest : List Char) : sgrTail (s ++ '\n' :: rest) = (sgrTail s).map (· ++ '\n' :: rest) := by
  cases s with
  | nil => rfl
  | cons c s =>
    by_cases hinert : isInert c
    · rw [List.cons_append, sgrTail_of_inert hinert, sgrTail_of_inert hinert]
      rfl
    · obtain rfl | rfl : c = '\x1b' ∨ c = '\x9b' := by
        simp only [isInert, ne_eq, decide_not, Bool.and_eq_true, Bool.not_eq_true', decide_eq_false_iff_not,
          not_and_or, not_not] at hinert
        exact hinert
      · cases s with
        | nil => rfl
        | cons d s =>
          by_cases hd : d = '['
          · subst hd
            exact sgrBody_append s rest
          · simp [sgrTail, hd]
      · exact sgrBody_append s rest

theorem stripSgr_append (s rest : List Char) :
    stripSgr (s ++ '\n' :: rest) = stripSgr s ++ '\n' :: stripSgr rest := by
  fun_induction stripSgr s with
  | case1 => exact stripSgr_cons_of_none (sgrTail_of_inert (by decide) _)
  | case2 c s after htail ih =>
    have hwhole := sgrTail_append (c :: s) rest
    rw [htail] at hwhole
    exact (stripSgr_cons_of_some hwhole).trans ih
  | case3 c s htail ih =>
    have hwhole := sgrTail_append (c :: s) rest
    rw [htail] at hwhole
    exact (stripSgr_cons_of_none hwhole).trans (congrArg (c :: ·) ih)

theorem stripSgr_joinLines (lines : List Line) : stripSgr (joinLines lines) = joinLines (lines.map stripSgr) := by
  induction lines with
  | nil => rw [List.map_nil, joinLines, List.intercalate_nil, stripSgr]
  | cons line lines ih =>
    cases lines with
    | nil => simp [joinLines]
    | cons next lines =>
      have hjoin : ∀ (line next : Line) (lines : List Line),
          joinLines (line :: next :: lines) = line ++ '\n' :: joinLines (next :: lines) := by
        intro line next lines
        simp [joinLines, List.intercalate_cons_cons]
      rw [hjoin, stripSgr_append, ih, List.map_cons, List.map_cons, List.map_cons, hjoin]

theorem stripSgr_sublist (s : List Char) : (stripSgr s).Sublist s := by
  fun_induction stripSgr s with
  | case1 => exact List.Sublist.refl _
  | case2 c s after htail ih =>
    obtain ⟨front, heq⟩ := exists_of_sgrTail htail
    rw [heq]
    exact (ih.cons 'm').trans (List.sublist_append_right _ _)
  | case3 c s htail ih => exact ih.cons_cons c

theorem Settled.reads (h : Settled row) : stripSgr (normalizeLine row) = normalizeLine row ∧
    normalizeLine (normalizeLine row) = normalizeLine row := by
  obtain hplain | ⟨lead, bullet, rest, hlead, hbullet, htrim, hne, hplain, heq⟩ := h.cases
  · rw [normalizeLine_of_plain hplain]
    exact ⟨h.sgr, (normalizeLine_of_plain (by rwa [trimEnd_trimEnd])).trans (trimEnd_trimEnd row)⟩
  · have htext : trimEnd rest ≠ [] := by rwa [htrim]
    have hkeep : ∀ c : Char, trimEnd (lead ++ c :: ' ' :: rest) = lead ++ c :: ' ' :: rest := by
      intro c
      simpa [htrim] using trimEnd_append htext (lead ++ [c, ' '])
    have hfront : ∀ c : Char, isInert c → ∀ d ∈ lead ++ [c, ' '], isInert d := by
      intro c hc d hd
      rcases List.mem_append.mp hd with hd | hd
      · exact isInert_of_isSpace (hlead d hd)
      · obtain rfl | rfl : d = c ∨ d = ' ' := by simpa using hd
        · exact hc
        · decide
    have hstrip : ∀ c : Char, isInert c →
        stripSgr (lead ++ c :: ' ' :: rest) = lead ++ c :: ' ' :: stripSgr rest := by
      intro c hc
      simpa using stripSgr_append_of_inert (hfront c hc) rest
    have hsgr := h.sgr
    rw [heq, hstrip bullet (isInert_of_isBullet hbullet)] at hsgr
    have hrest : stripSgr rest = rest := by simpa using hsgr
    have hblank : ∀ c ∈ lead ++ [' ', ' '], isSpace c := by
      intro c hc
      rcases List.mem_append.mp hc with hc | hc
      · exact hlead c hc
      · obtain rfl : c = ' ' := by simpa using hc
        decide
    have hreads : Plain (lead ++ ' ' :: ' ' :: rest) := by simpa using hplain.append hblank
    rw [normalizeLine_of_lit hlead hbullet htext (by rw [heq, hkeep]), htrim, hstrip ' ' (by decide), hrest]
    exact ⟨rfl, (normalizeLine_of_plain (by rwa [hkeep])).trans (hkeep ' ')⟩

/-! ### The lines of a screen -/

theorem not_mem_foldLineEnds (s : List Char) : '\r' ∉ foldLineEnds s := by
  fun_induction foldLineEnds s with
  | case1 => exact List.not_mem_nil
  | case2 s ih => simpa using ih
  | case3 s hnext ih => simpa using ih
  | case4 c s hpair hone ih => exact fun hmem => (List.mem_cons.mp hmem).elim (fun heq => hone heq.symm) ih

theorem foldLineEnds_of_not_mem (h : '\r' ∉ s) : foldLineEnds s = s := by
  fun_induction foldLineEnds s with
  | case1 => rfl
  | case2 s ih => simp at h
  | case3 s hnext ih => simp at h
  | case4 c s hpair hone ih => rw [ih (List.not_mem_of_not_mem_cons h)]

theorem mem_of_mem_normalizeLine (h : c ∈ normalizeLine row) : c = ' ' ∨ c ∈ row := by
  have hmem : c ∈ blankBullet row := (List.rdropWhile_prefix isSpace _).subset h
  unfold blankBullet at hmem
  split at hmem
  · rename_i lead rest hfound
    obtain ⟨bullet, -, -, rfl⟩ := exists_of_bulletOf hfound
    simp only [List.mem_append, List.mem_cons] at hmem ⊢
    tauto
  · exact .inr hmem

variable {text : List Char}

theorem not_mem_of_mem_rowsOf (h : row ∈ rowsOf text) : '\n' ∉ row ∧ '\r' ∉ row := by
  exact ⟨Separated.not_mem_of_mem_splitOn h, fun hmem =>
    not_mem_foldLineEnds _ ((Separated.sublist_of_mem_splitOn h).subset hmem)⟩

def rereadLine (line : Line) : Line := normalizeLine (stripSgr line)

theorem normalizePromptRegion_joinLines {lines : List Line} (hne : lines ≠ [])
    (hends : ∀ line ∈ lines, '\n' ∉ line ∧ '\r' ∉ line) :
    normalizePromptRegion (joinLines lines) = (lines.map rereadLine).filter (0 < ·.length) := by
  have hstripped : ∀ line ∈ lines.map stripSgr, '\n' ∉ line ∧ '\r' ∉ line := by
    intro line hline
    obtain ⟨before, hbefore, rfl⟩ := List.mem_map.mp hline
    exact ⟨fun hc => (hends before hbefore).1 ((stripSgr_sublist before).subset hc),
      fun hc => (hends before hbefore).2 ((stripSgr_sublist before).subset hc)⟩
  have hreturn : '\r' ∉ joinLines (lines.map stripSgr) := by
    intro hmem
    obtain ⟨line, hline, hc⟩ | hc := Separated.mem_intercalate hmem
    · exact (hstripped line hline).2 hc
    · exact absurd hc (by decide)
  have hrows : rowsOf (joinLines lines) = lines.map stripSgr := by
    rw [rowsOf, stripSgr_joinLines lines, foldLineEnds_of_not_mem hreturn]
    exact List.splitOn_intercalate _ (fun line hline => (hstripped line hline).1) (by simpa using hne)
  rw [normalizePromptRegion, hrows, normalizeRows, List.map_map]
  rfl

theorem of_mem_normalizePromptRegion {line : Line} (h : line ∈ normalizePromptRegion text) :
    ('\n' ∉ line ∧ '\r' ∉ line) ∧ line ≠ [] := by
  obtain ⟨hin, hpos⟩ := List.mem_filter.mp h
  obtain ⟨row, hrow, rfl⟩ := List.mem_map.mp hin
  have hends := not_mem_of_mem_rowsOf hrow
  refine ⟨⟨fun hc => ?_, fun hc => ?_⟩, List.ne_nil_of_length_pos (by simpa using hpos)⟩
  · exact (mem_of_mem_normalizeLine hc).elim (by decide) hends.1
  · exact (mem_of_mem_normalizeLine hc).elim (by decide) hends.2

/-! ### Redrawn rows -/

theorem normalizeLine_of_blank (h : trimEnd row = []) : normalizeLine row = [] := by
  rw [normalizeLine_of_plain (by rw [h]; exact plain_of_none rfl), h]

variable {rows rows' : List Line}

@[simp] theorem normalizeRows_append (rows rows' : List Line) :
    normalizeRows (rows ++ rows') = normalizeRows rows ++ normalizeRows rows' := by
  simp [normalizeRows]

theorem normalizeRows_cons (row : Line) (rows : List Line) :
    normalizeRows (row :: rows) = normalizeRows [row] ++ normalizeRows rows := normalizeRows_append [row] rows

theorem normalizeRows_blank (h : trimEnd row = []) : normalizeRows [row] = [] := by
  simp [normalizeRows, normalizeLine_of_blank h]

theorem SameRows.normalizeRows_eq (h : SameRows rows rows') (hsettled : ∀ row ∈ rows, Settled row) :
    normalizeRows rows' = normalizeRows rows := by
  induction h with
  | nil => rfl
  | @cons row row' rows rows' hrow _ ih =>
    obtain ⟨hhead, htail⟩ := List.forall_mem_cons.mp hsettled
    rw [normalizeRows_cons row', normalizeRows_cons row, ih htail]
    simp only [normalizeRows, List.map_cons, List.map_nil, hhead.normalizeLine_sameRow hrow]
  | @lost row rows rows' hblank _ ih =>
    rw [ih (List.forall_mem_cons.mp hsettled).2, normalizeRows_cons row, normalizeRows_blank hblank, List.nil_append]
  | @gained row rows rows' hblank _ ih =>
    rw [normalizeRows_cons row, normalizeRows_blank hblank, ih hsettled, List.nil_append]

theorem SameRow.blank (h : SameRow row row') (hblank : trimEnd row = []) : trimEnd row' = [] := by
  have hshows : ∀ {lead rest : Line} {c : Char}, trimEnd rest ≠ [] → trimEnd (lead ++ c :: ' ' :: rest) ≠ [] := by
    intro lead rest c hne hnil
    have hkeep := trimEnd_append hne (lead ++ [c, ' '])
    simp [hnil] at hkeep
  cases h with
  | padded hpad => rw [← hpad, hblank]
  | @blanked lead rest bullet _ _ hne hrow _ => exact absurd (hrow.symm.trans hblank) (hshows hne)
  | @shown lead rest bullet _ _ hne hrow _ => exact absurd (hrow.symm.trans hblank) (hshows hne)

theorem SameRows.length_le (h : SameRows rows rows') :
    (normalizeRows rows').length ≤ (rows.filter (trimEnd · ≠ [])).length := by
  induction h with
  | nil => simp [normalizeRows]
  | @cons row row' rows rows' hrow _ ih =>
    rw [normalizeRows_cons, List.length_append]
    by_cases hblank : trimEnd row = []
    · rw [normalizeRows_blank (hrow.blank hblank), List.filter_cons_of_neg (by simp [hblank])]
      simpa using ih
    · rw [List.filter_cons_of_pos (by simp [hblank]), List.length_cons]
      have hone : (normalizeRows [row']).length ≤ 1 := (List.length_filter_le _ _).trans (by simp)
      omega
  | @lost row rows rows' hblank _ ih => rwa [List.filter_cons_of_neg (by simp [hblank])]
  | @gained row rows rows' hblank _ ih =>
    rw [normalizeRows_cons, normalizeRows_blank hblank]
    exact ih

theorem SameRows.append {front back whole : List Line} (h : SameRows (front ++ back) whole) :
    ∃ front' back', whole = front' ++ back' ∧ SameRows front front' ∧ SameRows back back' := by
  generalize hrows : front ++ back = rows at h
  induction h generalizing front with
  | nil =>
    obtain ⟨rfl, rfl⟩ := List.append_eq_nil_iff.mp hrows
    exact ⟨[], [], rfl, .nil, .nil⟩
  | @cons row row' rows rows' hrow hrest ih =>
    cases front with
    | nil => exact ⟨[], row' :: rows', rfl, .nil, by rw [show back = row :: rows from hrows]; exact .cons hrow hrest⟩
    | cons first front =>
      obtain ⟨rfl, htail⟩ := List.cons.inj hrows
      obtain ⟨front', back', rfl, hfront, hback⟩ := ih htail
      exact ⟨row' :: front', back', rfl, .cons hrow hfront, hback⟩
  | @lost row rows rows' hblank hrest ih =>
    cases front with
    | nil => exact ⟨[], rows', rfl, .nil, by rw [show back = row :: rows from hrows]; exact .lost hblank hrest⟩
    | cons first front =>
      obtain ⟨rfl, htail⟩ := List.cons.inj hrows
      obtain ⟨front', back', rfl, hfront, hback⟩ := ih htail
      exact ⟨front', back', rfl, .lost hblank hfront, hback⟩
  | @gained row rows rows' hblank hrest ih =>
    obtain ⟨front', back', rfl, hfront, hback⟩ := ih hrows
    exact ⟨row :: front', back', rfl, .gained hblank hfront, hback⟩

/-! ### The check -/

theorem getLast?_filter_range {p : Nat → Bool} {n i : Nat} :
    ((List.range n).filter p).getLast? = some i ↔ i < n ∧ p i ∧ ∀ j < n, p j → j ≤ i := by
  induction n with
  | zero => simp
  | succ n ih =>
    rw [List.range_succ, List.filter_append]
    by_cases hn : p n
    · rw [List.filter_cons_of_pos hn, List.filter_nil, List.getLast?_append_of_ne_nil _ (List.cons_ne_nil _ _)]
      constructor
      · intro h
        obtain rfl : n = i := by simpa using h
        exact ⟨Nat.lt_succ_self n, hn, fun j hj _ => Nat.le_of_lt_succ hj⟩
      · rintro ⟨hi, -, hlast⟩
        have hle := hlast n (Nat.lt_succ_self n) hn
        simp only [List.getLast?_singleton, Option.some.injEq]
        omega
    · rw [List.filter_cons_of_neg hn, List.filter_nil, List.append_nil, ih]
      constructor
      · rintro ⟨hi, hpi, hlast⟩
        refine ⟨by omega, hpi, fun j hj hpj => ?_⟩
        obtain hj | rfl := Nat.lt_succ_iff_lt_or_eq.mp hj
        · exact hlast j hj hpj
        · exact absurd hpj hn
      · rintro ⟨hi, hpi, hlast⟩
        obtain hi | rfl := Nat.lt_succ_iff_lt_or_eq.mp hi
        · exact ⟨hi, hpi, fun j hj => hlast j (by omega)⟩
        · exact absurd hpi hn

variable {freshLines expectedLines : List Line} {start : Nat}

theorem matchesAt_iff : matchesAt freshLines expectedLines start ↔ expectedLines <+: freshLines.drop start := by
  simp only [matchesAt, List.all_eq_true, List.mem_range, decide_eq_true_eq, List.prefix_iff_getElem?,
    List.getElem?_drop]
  constructor
  · intro h i hi
    rw [h i hi, List.getElem?_eq_getElem hi]
  · intro h i hi
    rw [h i hi, List.getElem?_eq_getElem hi]

theorem prefix_drop_iff :
    (start < freshLines.length + 1 - expectedLines.length ∧ expectedLines <+: freshLines.drop start) ↔
      ∃ front back, freshLines = front ++ expectedLines ++ back ∧ front.length = start := by
  constructor
  · rintro ⟨hstart, back, hback⟩
    refine ⟨freshLines.take start, back, ?_, List.length_take_of_le (by omega)⟩
    rw [List.append_assoc, hback, List.take_append_drop]
  · rintro ⟨front, back, rfl, rfl⟩
    refine ⟨by simp only [List.length_append]; omega, back, by simp⟩

/-- The check accepts exactly the expected lines that stand one after the other among the fresh ones, the last time
ending within the tail. -/
theorem verifyExpectedPrompt_eq_ok {freshText expected : List Char} {tailLines : ℚ} :
    verifyExpectedPrompt freshText expected tailLines = .ok () ↔ normalizePromptRegion expected ≠ [] ∧ ∃ front back,
        normalizePromptRegion freshText = front ++ normalizePromptRegion expected ++ back ∧
        (∀ front' back', normalizePromptRegion freshText = front' ++ normalizePromptRegion expected ++ back' →
          front'.length ≤ front.length) ∧ (back.length : ℚ) + 1 ≤ tailLines := by
  unfold verifyExpectedPrompt
  generalize normalizePromptRegion freshText = freshLines
  generalize normalizePromptRegion expected = expectedLines
  have hlast : ∀ start, ((List.range (freshLines.length + 1 - expectedLines.length)).filter
      (matchesAt freshLines expectedLines)).getLast? = some start ↔ ∃ front back,
        freshLines = front ++ expectedLines ++ back ∧ front.length = start ∧
          ∀ front' back', freshLines = front' ++ expectedLines ++ back' → front'.length ≤ front.length := by
    intro start
    rw [getLast?_filter_range]
    constructor
    · rintro ⟨hstart, hmatch, hall⟩
      obtain ⟨front, back, heq, hlength⟩ := prefix_drop_iff.mp ⟨hstart, matchesAt_iff.mp hmatch⟩
      refine ⟨front, back, heq, hlength, fun front' back' heq' => ?_⟩
      obtain ⟨hstart', hmatch'⟩ := prefix_drop_iff.mpr ⟨front', back', heq', rfl⟩
      rw [hlength]
      exact hall _ hstart' (matchesAt_iff.mpr hmatch')
    · rintro ⟨front, back, heq, rfl, hall⟩
      obtain ⟨hstart, hmatch⟩ := prefix_drop_iff.mpr ⟨front, back, heq, rfl⟩
      refine ⟨hstart, matchesAt_iff.mpr hmatch, fun j hj hother => ?_⟩
      obtain ⟨front', back', heq', rfl⟩ := prefix_drop_iff.mp ⟨hj, matchesAt_iff.mp hother⟩
      exact hall front' back' heq'
  have htail : ∀ {front back : List Line}, freshLines = front ++ expectedLines ++ back → expectedLines ≠ [] →
      (¬front.length + expectedLines.length - 1 < freshLines.length - ⌊tailLines⌋.toNat ↔
        (back.length : ℚ) + 1 ≤ tailLines) := by
    intro front back heq hne
    have hpos := List.length_pos_of_ne_nil hne
    have hfloor : back.length + 1 ≤ ⌊tailLines⌋.toNat ↔ (back.length : ℚ) + 1 ≤ tailLines := by
      have hint : back.length + 1 ≤ ⌊tailLines⌋.toNat ↔ ((back.length + 1 : ℕ) : ℤ) ≤ ⌊tailLines⌋ := by omega
      rw [hint, Int.le_floor]
      push_cast
      rfl
    rw [← hfloor, heq, List.length_append, List.length_append]
    omega
  by_cases hempty : expectedLines = []
  · simp [hempty]
  · have hlength : ¬expectedLines.length = 0 := fun hzero => hempty (List.length_eq_zero_iff.mp hzero)
    simp only [hlength, if_false]
    cases hstarts : ((List.range (freshLines.length + 1 - expectedLines.length)).filter
        (matchesAt freshLines expectedLines)).getLast? with
    | none =>
      refine ⟨fun h => (by cases h), ?_⟩
      rintro ⟨-, front, back, heq, hall, -⟩
      rw [(hlast front.length).mpr ⟨front, back, heq, rfl, hall⟩] at hstarts
      cases hstarts
    | some start =>
      obtain ⟨front, back, heq, rfl, hall⟩ := (hlast start).mp hstarts
      dsimp only
      split_ifs with hend
      · refine ⟨fun h => (by cases h), ?_⟩
        rintro ⟨-, front', back', heq', hall', htl⟩
        have hsame : front'.length = front.length := le_antisymm (hall _ _ heq') (hall' _ _ heq)
        exact absurd hend (hsame ▸ (htail heq' hempty).mpr htl)
      · exact ⟨fun _ => ⟨hempty, front, back, heq, hall, (htail heq hempty).mp hend⟩, fun _ => rfl⟩

theorem exists_last_match {freshLines expectedLines front back : List Line}
    (h : freshLines = front ++ expectedLines ++ back) : ∃ front' back',
      freshLines = front' ++ expectedLines ++ back' ∧
        (∀ other rest, freshLines = other ++ expectedLines ++ rest → other.length ≤ front'.length) ∧
          back'.length ≤ back.length := by
  induction hback : back.length using Nat.strong_induction_on generalizing front back with
  | _ n ih =>
    by_cases hlater : ∃ other rest, freshLines = other ++ expectedLines ++ rest ∧ front.length < other.length
    · obtain ⟨other, rest, heq, hlonger⟩ := hlater
      have hlength := congrArg List.length (h.symm.trans heq)
      simp only [List.length_append] at hlength
      obtain ⟨front', back', heq', hall, hle⟩ := ih rest.length (by omega) heq rfl
      exact ⟨front', back', heq', hall, by omega⟩
    · refine ⟨front, back, h, fun other rest heq => ?_, hback.le⟩
      exact Nat.le_of_not_lt fun hlt => hlater ⟨other, rest, heq, hlt⟩

/-! ### The binding -/

theorem lastLines_subset (n : Nat) (lines : List Line) : lastLines n lines ⊆ lines := (List.drop_suffix _ _).subset

theorem boundLines_of_length_le (h : (normalizePromptRegion text).length ≤ BOUND_TEXT_LINES) :
    boundLines text = normalizePromptRegion text := by
  rw [boundLines, lastLines, Nat.sub_eq_zero_of_le h, List.drop_zero]

theorem normalize_boundTextOf (hne : boundLines text ≠ []) :
    normalizePromptRegion (boundTextOf text) = ((boundLines text).map rereadLine).filter (0 < ·.length) :=
  normalizePromptRegion_joinLines hne fun _ hline => (of_mem_normalizePromptRegion (lastLines_subset _ _ hline)).1

theorem BoundSettled.normalize_boundTextOf (h : BoundSettled text) :
    normalizePromptRegion (boundTextOf text) = boundLines text := by
  obtain ⟨hne, front, bound, back, hrows, hlines, hsettled, -⟩ := h
  have hreads : ∀ line ∈ boundLines text, rereadLine line = line := by
    intro line hline
    rw [← hlines] at hline
    obtain ⟨row, hrow, rfl⟩ := List.mem_map.mp (List.mem_filter.mp hline).1
    obtain ⟨hstrip, hagain⟩ := (hsettled row hrow).reads
    rw [rereadLine, hstrip, hagain]
  rw [PromptBinding.normalize_boundTextOf hne, List.map_congr_left hreads, List.map_id']
  refine List.filter_eq_self.mpr fun line hline => ?_
  have htext := (of_mem_normalizePromptRegion (lastLines_subset _ _ hline)).2
  simpa using List.length_pos_of_ne_nil htext

/-- A screen of no more lines than are bound, which all keep text when they are read again, accepts its own binding
exactly when each of them is read again as it is. -/
theorem accepts_itself_iff (hne : normalizePromptRegion text ≠ [])
    (hfew : (normalizePromptRegion text).length ≤ BOUND_TEXT_LINES)
    (hkeeps : ∀ line ∈ normalizePromptRegion text, rereadLine line ≠ []) :
    verifyExpectedPrompt text (boundTextOf text) PROMPT_TAIL_LINES = .ok () ↔
      ∀ line ∈ normalizePromptRegion text, rereadLine line = line := by
  have hbound := boundLines_of_length_le hfew
  have hagain : normalizePromptRegion (boundTextOf text) = (normalizePromptRegion text).map rereadLine := by
    rw [normalize_boundTextOf (by rwa [hbound]), hbound]
    refine List.filter_eq_self.mpr fun line hline => ?_
    obtain ⟨before, hbefore, rfl⟩ := List.mem_map.mp hline
    simpa using List.length_pos_of_ne_nil (hkeeps before hbefore)
  rw [verifyExpectedPrompt_eq_ok, hagain]
  constructor
  · rintro ⟨-, front, back, heq, -, -⟩
    have hlength := congrArg List.length heq
    simp only [List.length_append, List.length_map] at hlength
    obtain rfl : front = [] := List.length_eq_zero_iff.mp (by omega)
    obtain rfl : back = [] := List.length_eq_zero_iff.mp (by omega)
    rw [List.nil_append, List.append_nil] at heq
    exact List.map_inj_left.mp (heq.symm.trans (List.map_id' _).symm)
  · intro hreads
    have hsame : (normalizePromptRegion text).map rereadLine = normalizePromptRegion text := by
      rw [List.map_congr_left hreads, List.map_id']
    rw [hsame]
    obtain ⟨first, rest, heq, hall, hle⟩ := @exists_last_match (normalizePromptRegion text)
      (normalizePromptRegion text) [] [] (by simp)
    have hfew' : rest.length + 1 ≤ PROMPT_TAIL_LINES := by
      rw [List.length_nil] at hle
      rw [PROMPT_TAIL_LINES]
      omega
    exact ⟨hne, first, rest, heq, hall, by exact_mod_cast hfew'⟩

/-- A binding to settled rows holds on every redraw of the screen it was made from. A short screen whose lines keep
text accepts its own binding exactly when each line is read again as it is. The check accepts nothing but the expected
lines, one after the other, the last time ending within the tail. -/
theorem binding_holds (text fresh : List Char) : (BoundSettled text → Redrawn text fresh →
      verifyExpectedPrompt fresh (boundTextOf text) PROMPT_TAIL_LINES = .ok ()) ∧
    (normalizePromptRegion text ≠ [] → (normalizePromptRegion text).length ≤ BOUND_TEXT_LINES →
      (∀ line ∈ normalizePromptRegion text, rereadLine line ≠ []) →
        (verifyExpectedPrompt text (boundTextOf text) PROMPT_TAIL_LINES = .ok () ↔
          ∀ line ∈ normalizePromptRegion text, rereadLine line = line)) ∧
    ∀ (expected : List Char) (tailLines : ℚ), verifyExpectedPrompt fresh expected tailLines = .ok () ↔
      normalizePromptRegion expected ≠ [] ∧ ∃ front back,
        normalizePromptRegion fresh = front ++ normalizePromptRegion expected ++ back ∧
        (∀ front' back', normalizePromptRegion fresh = front' ++ normalizePromptRegion expected ++ back' →
          front'.length ≤ front.length) ∧ (back.length : ℚ) + 1 ≤ tailLines := by
  refine ⟨fun h hfresh => ?_, accepts_itself_iff, fun _ _ => verifyExpectedPrompt_eq_ok⟩
  have hexpected := h.normalize_boundTextOf
  obtain ⟨hne, front, bound, back, hrows, hlines, hsettled, hback⟩ := h
  rw [Redrawn, hrows] at hfresh
  obtain ⟨front', back', hfreshRows, hfront, hbackRows⟩ := hfresh.append
  obtain ⟨front'', bound', rfl, -, hbound⟩ := hfront.append
  have hin : normalizePromptRegion fresh = normalizeRows front'' ++ boundLines text ++ normalizeRows back' := by
    rw [normalizePromptRegion, hfreshRows, normalizeRows_append, normalizeRows_append,
      hbound.normalizeRows_eq hsettled, hlines]
  obtain ⟨first, rest, heq, hall, hle⟩ := exists_last_match hin
  refine verifyExpectedPrompt_eq_ok.mpr ⟨by rwa [hexpected], first, rest, by rwa [hexpected], ?_, ?_⟩
  · rwa [hexpected]
  · have hfew : rest.length + 1 ≤ PROMPT_TAIL_LINES := by
      have hrows' := hbackRows.length_le
      omega
    exact_mod_cast hfew

theorem stripSgr_of_inert (h : text.all isInert) : stripSgr text = text := by
  have hnil : stripSgr [] = [] := by rw [stripSgr]
  simpa [hnil] using stripSgr_append_of_inert (List.all_eq_true.mp h) []

def litScreen : List Char := "● Read a\n 1. Yes".toList

/-- The screen again, its bullet blanked, with a colour, padding, another line end and a blank row. -/
def darkScreen : List Char := "\x1b[0m  Read a  \r\n\n 1. Yes".toList

theorem binding_holds_dark : verifyExpectedPrompt darkScreen (boundTextOf litScreen) PROMPT_TAIL_LINES = .ok () := by
  have hrows : rowsOf litScreen = ["● Read a".toList, " 1. Yes".toList] := by
    rw [rowsOf, stripSgr_of_inert (by decide)]
    decide +kernel
  have hdark : rowsOf darkScreen = ["  Read a  ".toList, [], " 1. Yes".toList] := by
    have hstrip : stripSgr darkScreen = "  Read a  \r\n\n 1. Yes".toList :=
      (stripSgr_cons_of_some (by decide)).trans (stripSgr_of_inert (by decide))
    rw [rowsOf, hstrip]
    decide +kernel
  have hbound : boundLines litScreen = ["  Read a".toList, " 1. Yes".toList] := by
    rw [boundLines, normalizePromptRegion, hrows]
    decide +kernel
  have hread : bulletOf (trimEnd "● Read a".toList) = some ([], " Read a".toList) := by decide +kernel
  have hyes : bulletOf (trimEnd " 1. Yes".toList) = none := by decide +kernel
  have hsettled : BoundSettled litScreen := by
    refine ⟨by simp [hbound], [], ["● Read a".toList, " 1. Yes".toList], [], by simpa using hrows, ?_, ?_, by decide⟩
    · rw [hbound]
      decide +kernel
    · rintro row (_ | ⟨_, _ | ⟨_, ⟨⟩⟩⟩)
      · refine ⟨stripSgr_of_inert (by decide +kernel), fun lead => ?_, fun lead rest h => ?_⟩
        · rw [hread]
          simp
        · obtain ⟨rfl, heq⟩ := Prod.mk.inj (Option.some.inj (hread.symm.trans h))
          obtain rfl : "Read a".toList = rest := (List.cons.inj heq).2
          have hplain : bulletOf "Read a".toList = none := by decide +kernel
          exact ⟨plain_of_none hplain, by decide⟩
      · exact ⟨stripSgr_of_inert (by decide +kernel), (plain_of_none hyes).lone, fun lead rest h =>
          absurd h ((plain_of_none hyes).lit lead rest)⟩
  refine (binding_holds litScreen darkScreen).1 hsettled ?_
  rw [Redrawn, hrows, hdark]
  exact .cons (@SameRow.blanked _ _ [] "Read a".toList '●' (by simp) (by decide) (by decide) (by decide) (by decide))
    (.gained (by decide) (.cons (.padded rfl) .nil))

/-- A row with two bullets is read another way the second time, so its own screen is refused. -/
theorem two_bullets_refused : (∃ row ∈ rowsOf "● ● x".toList, trimEnd row ≠ []) ∧
    verifyExpectedPrompt "● ● x".toList (boundTextOf "● ● x".toList) PROMPT_TAIL_LINES = .error .notFound := by
  have hrows : rowsOf "● ● x".toList = ["● ● x".toList] := by
    rw [rowsOf, stripSgr_of_inert (by decide)]
    decide +kernel
  have htext : boundTextOf "● ● x".toList = "  ● x".toList := by
    rw [boundTextOf, boundLines, normalizePromptRegion, hrows]
    decide +kernel
  have hagain : rowsOf "  ● x".toList = ["  ● x".toList] := by
    rw [rowsOf, stripSgr_of_inert (by decide)]
    decide +kernel
  refine ⟨⟨"● ● x".toList, by rw [hrows]; exact List.mem_singleton_self _, by decide⟩, ?_⟩
  rw [htext, verifyExpectedPrompt, normalizePromptRegion, normalizePromptRegion, hrows, hagain]
  decide +kernel

end Sightr.PromptBinding
