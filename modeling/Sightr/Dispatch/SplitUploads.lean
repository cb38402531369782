import Sightr.Dispatch.Drain
import Sightr.Requests.Binding

/-!
# Uploads in a message

`splitUploads` of `bridge/threads/turn-items.ts` takes the upload paths that `messageText` of `dispatch.ts` put behind a
message out of it again. Its regular expression matches whole words, the runs of a text that are not white space, which
stand in an `uploads` directory with something in front of it.
-/

namespace Sightr

open JsText

/-! ### Upload names -/

/-- `/^[A-Za-z0-9_-]{1,128}-[0-9a-z]{1,13}-[0-9a-f]{8}\.([a-z0-9]{1,10})$/`, with the extension it captures. The last two
parts have no dash in them. -/
def uploadExt (name : List Char) : Option (List Char) :=
  let isLower (c : Char) : Bool := '0' ≤ c && c ≤ '9' || 'a' ≤ c && c ≤ 'z'
  let isHex (c : Char) : Bool := '0' ≤ c && c ≤ '9' || 'a' ≤ c && c ≤ 'f'
  match (name.splitOn '-').reverse with
  | file :: time :: front =>
    let pane := List.intercalate ['-'] front.reverse
    match file.splitOn '.' with
    | [hex, ext] =>
      if 1 ≤ pane.length ∧ pane.length ≤ 128 ∧ pane.all (fun c => isLower c || 'A' ≤ c && c ≤ 'Z' || c = '_' || c = '-') ∧
          1 ≤ time.length ∧ time.length ≤ 13 ∧ time.all isLower ∧ hex.length = 8 ∧ hex.all isHex ∧
          1 ≤ ext.length ∧ ext.length ≤ 10 ∧ ext.all isLower then some ext
      else none
    | _ => none
  | _ => none

def segmentsOf (path : List Char) : List (List Char) := (path.splitOnP fun c => c = '\\' || c = '/').reverse

def uploadNameOf (path : List Char) : Option (List Char) :=
  match segmentsOf path with
  | name :: dir :: _ => if asciiLowerCase dir = "uploads".toList ∧ (uploadExt name).isSome then some name else none
  | _ => none

def uploadMime (ext : List Char) : Option String :=
  if ext = "png".toList then some "image/png"
  else if ext = "jpg".toList then some "image/jpeg"
  else if ext = "gif".toList then some "image/gif"
  else if ext = "webp".toList then some "image/webp"
  else none

def uploadAttachment (path : List Char) : Option ChatAttachment :=
  (uploadNameOf path).map fun name =>
    let mimeType := (uploadExt name).bind uploadMime
    { type := some (if mimeType.isSome then .image else .file), id := some ("u_" ++ String.ofList name),
      name := String.ofList name, path := String.ofList path, mimeType }

/-! ### The split -/

/-- Something stands in front of the word's directory and its separator. -/
def hasFront (word : List Char) : Bool :=
  match segmentsOf word with
  | _ :: _ :: front => front ≠ [] && front ≠ [[]]
  | _ => false

/-- The upload that a word is, as the regular expression and its callback see it. -/
def uploadOf (word : List Char) : Option ChatAttachment := if hasFront word then uploadAttachment word else none

def cutWord (word : List Char) : List Char × List ChatAttachment :=
  match uploadOf word with
  | some attachment => ([], [attachment])
  | none => (word, [])

/-- The global replacement: `word` is the word under way. -/
def replaceUploads (word : List Char) : List Char → List Char × List ChatAttachment
  | [] => cutWord word
  | c :: s =>
    if isSpace c then
      ((cutWord word).1 ++ c :: (replaceUploads [] s).1, (cutWord word).2 ++ (replaceUploads [] s).2)
    else replaceUploads (word ++ [c]) s

def isSpaceOrTab (c : Char) : Bool := c = ' ' || c = '\t'

/-- `rest.replace(/[ \t]+$/gm, "")`: blanks before a line terminator or the end go. -/
def stripLines : List Char → List Char
  | [] => []
  | c :: s =>
    let left := stripLines s
    if isSpaceOrTab c && left.head?.all (!isInLine ·) then left else c :: left

def splitUploads (text : List Char) : List Char × List ChatAttachment :=
  let (rest, attachments) := replaceUploads [] text
  if attachments = [] then (text, attachments) else (trimEnd (stripLines rest), attachments)

def wordsFrom (word : List Char) : List Char → List (List Char)
  | [] => [word]
  | c :: s => if isSpace c then word :: wordsFrom [] s else wordsFrom (word ++ [c]) s

def NoUploads (text : List Char) : Prop := ∀ word ∈ wordsFrom [] text, uploadNameOf word = none

instance (text : List Char) : Decidable (NoUploads text) :=
  inferInstanceAs (Decidable (∀ word ∈ wordsFrom [] text, uploadNameOf word = none))

/-! ### Words -/

section

variable {word text rest : List Char} {c : Char}

theorem cutWord_of_none (h : uploadNameOf word = none) : cutWord word = (word, []) := by
  have hnone : uploadOf word = none := by
    rw [uploadOf, uploadAttachment, h]
    exact ite_self _
  rw [cutWord, hnone]

theorem replaceUploads_of_none (h : ∀ w ∈ wordsFrom word text, uploadNameOf w = none) :
    replaceUploads word text = (word ++ text, []) := by
  induction text generalizing word with
  | nil =>
    rw [replaceUploads, cutWord_of_none (h word (List.mem_singleton_self word)), List.append_nil]
  | cons c s ih =>
    rw [wordsFrom] at h
    rw [replaceUploads]
    split_ifs at h ⊢
    · rw [cutWord_of_none (h word List.mem_cons_self), ih fun w hw => h w (List.mem_cons_of_mem _ hw)]
      rfl
    · rw [ih h, List.append_assoc, List.singleton_append]

theorem replaceUploads_append (hc : isSpace c) : replaceUploads word (text ++ c :: rest) =
    ((replaceUploads word text).1 ++ c :: (replaceUploads [] rest).1,
      (replaceUploads word text).2 ++ (replaceUploads [] rest).2) := by
  induction text generalizing word with
  | nil => simp only [List.nil_append, replaceUploads, if_pos hc]
  | cons d s ih =>
    rw [List.cons_append, replaceUploads, replaceUploads]
    split_ifs
    · rw [ih]
      simp only [List.append_assoc, List.cons_append]
    · exact ih

theorem replaceUploads_of_noSpace (h : text.any isSpace = false) :
    replaceUploads word text = cutWord (word ++ text) := by
  induction text generalizing word with
  | nil => rw [replaceUploads, List.append_nil]
  | cons c s ih =>
    obtain ⟨hc, hs⟩ := Bool.or_eq_false_iff.mp (List.any_cons.symm.trans h)
    rw [replaceUploads, if_neg (Bool.not_eq_true _ ▸ hc), ih hs, List.append_assoc, List.singleton_append]

theorem replaceUploads_intercalate (parts : List (List Char)) : replaceUploads [] (List.intercalate [' '] parts) =
      (List.intercalate [' '] (parts.map fun part => (replaceUploads [] part).1),
        parts.flatMap fun part => (replaceUploads [] part).2) := by
  induction parts with
  | nil => exact cutWord_of_none rfl
  | cons part parts ih =>
    cases parts with
    | nil => simp [List.intercalate]
    | cons next parts =>
      rw [List.map_cons, List.map_cons, List.intercalate_cons_cons, List.intercalate_cons_cons, List.append_assoc,
        List.singleton_append, replaceUploads_append (by decide), ih, List.flatMap_cons, List.append_assoc]
      rfl

theorem mem_wordsFrom_append {w : List Char} (hrest : ∀ c ∈ rest, isSpace c) (h : w ∈ wordsFrom word text) :
    w ∈ wordsFrom word (text ++ rest) := by
  induction text generalizing word with
  | nil =>
    obtain rfl := List.mem_singleton.mp h
    cases rest with
    | nil => exact h
    | cons c rest =>
      rw [List.nil_append, wordsFrom, if_pos (hrest c List.mem_cons_self)]
      exact List.mem_cons_self
  | cons c s ih =>
    rw [List.cons_append, wordsFrom]
    rw [wordsFrom] at h
    split_ifs at h ⊢
    · exact (List.mem_cons.mp h).elim (fun heq => heq ▸ List.mem_cons_self) fun h => List.mem_cons_of_mem _ (ih h)
    · exact ih h

theorem NoUploads.trimEnd (h : NoUploads text) : NoUploads (trimEnd text) := by
  obtain ⟨w, hspace, heq⟩ := PromptBinding.exists_trimEnd text
  exact fun word hword => h word (heq ▸ mem_wordsFrom_append hspace hword)

end

/-! ### Line ends -/

section

variable {text rest : List Char} {c : Char}

theorem stripLines_append (h : stripLines rest = []) (text : List Char) :
    stripLines (text ++ rest) = stripLines text := by
  induction text with
  | nil => exact h
  | cons c s ih =>
    simp only [List.cons_append, stripLines, ih]

theorem stripLines_of_blank (h : ∀ c ∈ text, c = ' ') : stripLines text = [] := by
  induction text with
  | nil => rfl
  | cons c s ih =>
    rw [stripLines, ih fun d hd => h d (List.mem_cons_of_mem c hd), h c List.mem_cons_self]
    rfl

theorem length_stripLines_le (text : List Char) : (stripLines text).length ≤ text.length := by
  induction text with
  | nil => exact Nat.le_refl 0
  | cons c s ih =>
    simp only [stripLines]
    split_ifs
    · exact ih.trans (Nat.le_succ _)
    · exact Nat.succ_le_succ ih

theorem stripLines_concat (hc : isSpaceOrTab c = false) (front : List Char) :
    ∃ left, stripLines (front ++ [c]) = left ++ [c] := by
  induction front with
  | nil => exact ⟨[], by simp [stripLines, hc]⟩
  | cons d s ih =>
    obtain ⟨left, hleft⟩ := ih
    rw [List.cons_append, stripLines, hleft]
    split_ifs
    · exact ⟨left, rfl⟩
    · exact ⟨d :: left, rfl⟩

def LinesKept (text : List Char) : Prop := text.IsChain fun c d => isSpaceOrTab c → isInLine d

instance (text : List Char) : Decidable (LinesKept text) :=
  inferInstanceAs (Decidable (text.IsChain fun c d => isSpaceOrTab c → isInLine d))

theorem stripLines_concat_iff (hc : isSpaceOrTab c = false) (front : List Char) :
    stripLines (front ++ [c]) = front ++ [c] ↔ LinesKept (front ++ [c]) := by
  induction front with
  | nil => simp [stripLines, LinesKept, hc]
  | cons d s ih =>
    obtain ⟨e, t, heq⟩ := List.exists_cons_of_ne_nil (List.append_ne_nil_of_right_ne_nil s (List.cons_ne_nil c []))
    rw [heq] at ih
    rw [List.cons_append, heq, LinesKept, List.isChain_cons_cons, ← LinesKept, ← ih, stripLines]
    have hshort := length_stripLines_le (e :: t)
    split_ifs with hgoes
    · refine iff_of_false (fun hsame => ?_) ?_
      · rw [hsame] at hshort
        exact absurd hshort (Nat.not_succ_le_self _)
      · rintro ⟨hstays, hrest⟩
        rw [hrest, Bool.and_eq_true] at hgoes
        have hin := hstays hgoes.1
        simp [hin] at hgoes
    · refine ⟨fun hsame => ?_, fun h => by rw [h.2]⟩
      have hrest := (List.cons.inj hsame).2
      refine ⟨fun hblank => ?_, hrest⟩
      rw [hrest, hblank] at hgoes
      simpa using hgoes

theorem isSpace_of_isSpaceOrTab (h : isSpaceOrTab c) : isSpace c := by
  rcases Bool.or_eq_true_iff.mp h with hc | hc <;> rw [of_decide_eq_true hc] <;> decide

theorem last_not_space {front : List Char} (h : trimEnd (front ++ [c]) = front ++ [c]) : isSpace c = false := by
  have hlast : trimEnd [c] = [c] := PromptBinding.trimEnd_eq_of_append h (List.cons_ne_nil c [])
  cases hc : isSpace c with
  | false => rfl
  | true => simp [trimEnd, hc] at hlast

theorem stripLines_iff (htext : trimEnd text = text) : stripLines text = text ↔ LinesKept text := by
  rcases List.eq_nil_or_concat' text with rfl | ⟨front, c, rfl⟩
  · exact iff_of_true rfl .nil
  · refine stripLines_concat_iff ?_ front
    cases hblank : isSpaceOrTab c with
    | false => rfl
    | true => exact (isSpace_of_isSpaceOrTab hblank).symm.trans (last_not_space htext)

theorem trimEnd_stripLines (htext : trimEnd text = text) : trimEnd (stripLines text) = stripLines text := by
  rcases List.eq_nil_or_concat' text with rfl | ⟨front, c, rfl⟩
  · rfl
  · have hc := last_not_space htext
    have hblank : isSpaceOrTab c = false := by
      cases hblank : isSpaceOrTab c with
      | false => rfl
      | true => exact (isSpace_of_isSpaceOrTab hblank).symm.trans hc
    obtain ⟨left, hleft⟩ := stripLines_concat hblank front
    have hsingle : trimEnd [c] = [c] := by simp [trimEnd, hc]
    rw [hleft, PromptBinding.trimEnd_append (by rw [hsingle]; exact List.cons_ne_nil c []), hsingle]

theorem trim_of_noSpace (h : text.any isSpace = false) : trim text = text := by
  rw [List.any_eq_false] at h
  have hstart (s : List Char) (hs : ∀ c ∈ s, ¬isSpace c = true) : s.dropWhile isSpace = s := by
    cases s with
    | nil => rfl
    | cons c s => exact List.dropWhile_cons_of_neg (hs c List.mem_cons_self)
  rw [trim, trimStart, hstart text h, trimEnd, hstart _ fun c hc => h c (List.mem_reverse.mp hc), List.reverse_reverse]

theorem trim_eq_nil_iff (htext : trimEnd text = text) : trim text = [] ↔ text = [] := by
  refine ⟨fun h => ?_, fun h => by rw [h]; rfl⟩
  obtain ⟨w, hspace, heq⟩ := PromptBinding.exists_trimEnd (trimStart text)
  rw [show trimEnd (trimStart text) = [] from h, List.nil_append] at heq
  have hall : ∀ c ∈ text, isSpace c := by
    intro c hc
    rw [← List.takeWhile_append_dropWhile (p := isSpace) (l := text)] at hc
    rcases List.mem_append.mp hc with hc | hc
    · exact List.mem_takeWhile_imp hc
    · exact hspace c (heq ▸ hc)
  rw [← htext, ← List.nil_append text, PromptBinding.trimEnd_append_of_space hall]
  rfl

end

/-! ### Messages -/

section

variable {text : String} {attachments : List ChatAttachment}

def pathsOf (attachments : List ChatAttachment) : List (List Char) := attachments.map (·.path.toList)

def AreUploads (attachments : List ChatAttachment) : Prop :=
  ∀ path ∈ pathsOf attachments, (uploadNameOf path).isSome ∧ path.any isSpace = false

instance (attachments : List ChatAttachment) : Decidable (AreUploads attachments) :=
  inferInstanceAs (Decidable (∀ path ∈ pathsOf attachments, (uploadNameOf path).isSome ∧ path.any isSpace = false))

theorem messageText_eq (h : AreUploads attachments) : (messageText text attachments).toList =
    List.intercalate [' '] ((if trimEnd text.toList = [] then [] else [trimEnd text.toList]) ++ pathsOf attachments) := by
  have hkept (path : List Char) (hpath : path ∈ pathsOf attachments) : trim path = path ∧ path ≠ [] := by
    refine ⟨trim_of_noSpace (h path hpath).2, ?_⟩
    rintro rfl
    cases (h [] hpath).1
  have hpaths : (attachments.map fun a => trim a.path.toList).filter (!·.isEmpty) = pathsOf attachments := by
    rw [show (attachments.map fun a => trim a.path.toList) = (pathsOf attachments).map trim by
      rw [pathsOf, List.map_map]; rfl, List.map_congr_left fun path hpath => (hkept path hpath).1, List.map_id',
      List.filter_eq_self]
    exact fun path hpath => by simpa using (hkept path hpath).2
  have hparts : (pathsOf attachments).filter (fun part => !(trim part).isEmpty) = pathsOf attachments := by
    refine List.filter_eq_self.mpr fun path hpath => ?_
    rw [(hkept path hpath).1]
    simpa using (hkept path hpath).2
  have hbody := trim_eq_nil_iff (PromptBinding.trimEnd_trimEnd text.toList)
  rw [messageText, String.toList_ofList]
  simp only [hpaths, List.filter_cons, hparts]
  by_cases hnil : trimEnd text.toList = []
  · simp [hnil, show trim [] = [] from rfl]
  · simp [hnil, hbody]

theorem replaceUploads_messageText (htext : NoUploads text.toList) (h : AreUploads attachments) :
    replaceUploads [] (messageText text attachments).toList =
      (List.intercalate [' '] ((if trimEnd text.toList = [] then [] else [trimEnd text.toList]) ++
          (pathsOf attachments).map fun path => (cutWord path).1),
        (pathsOf attachments).filterMap uploadOf) := by
  have hpart (path : List Char) (hpath : path ∈ pathsOf attachments) : replaceUploads [] path = cutWord path :=
    replaceUploads_of_noSpace (h path hpath).2
  have hbody := replaceUploads_of_none htext.trimEnd
  have hfirst : (pathsOf attachments).map (fun path => (replaceUploads [] path).1) =
      (pathsOf attachments).map fun path => (cutWord path).1 :=
    List.map_congr_left fun path hpath => by rw [hpart path hpath]
  have hsecond : (pathsOf attachments).flatMap (fun path => (replaceUploads [] path).2) =
      (pathsOf attachments).filterMap uploadOf := by
    rw [List.filterMap_eq_flatMap_toList]
    refine List.flatMap_congr fun path hpath => ?_
    rw [hpart path hpath, cutWord]
    cases uploadOf path <;> rfl
  rw [messageText_eq h, replaceUploads_intercalate]
  split_ifs
  · rw [List.nil_append, List.nil_append, hfirst, hsecond]
  · simp only [List.singleton_append, List.map_cons, List.flatMap_cons, hbody, List.nil_append, hfirst, hsecond]

theorem intercalate_blank {parts : List (List Char)} (h : ∀ part ∈ parts, part = []) :
    ∀ c ∈ List.intercalate [' '] parts, c = ' ' := by
  intro c hc
  rcases Separated.mem_intercalate hc with ⟨part, hpart, hmem⟩ | hspace
  · rw [h part hpart] at hmem
    cases hmem
  · exact hspace

theorem intercalate_body (body : List Char) {parts : List (List Char)} (h : ∀ part ∈ parts, part = []) :
    ∃ w, (∀ c ∈ w, c = ' ') ∧ List.intercalate [' '] ((if body = [] then [] else [body]) ++ parts) = body ++ w := by
  split_ifs with hbody
  · exact ⟨_, intercalate_blank h, by rw [hbody]; rfl⟩
  · cases parts with
    | nil =>
      refine ⟨[], ?_, by simp⟩
      rintro c ⟨⟩
    | cons part parts =>
      refine ⟨' ' :: List.intercalate [' '] (part :: parts), fun c hc => ?_, ?_⟩
      · exact (List.mem_cons.mp hc).elim id (intercalate_blank h c)
      · rw [List.singleton_append, List.intercalate_cons_cons, List.append_assoc, List.singleton_append]

theorem isSome_uploadAttachment {path : List Char} : (uploadAttachment path).isSome = (uploadNameOf path).isSome := by
  rw [uploadAttachment, Option.isSome_map]

/-- The expression sees every upload exactly where each stands behind something. -/
theorem filterMap_uploadOf_iff (h : AreUploads attachments) : (pathsOf attachments).filterMap uploadOf =
    (pathsOf attachments).filterMap uploadAttachment ↔ ∀ path ∈ pathsOf attachments, hasFront path := by
  refine ⟨fun heq path hpath => ?_, fun hfront => List.filterMap_congr fun path hpath => if_pos (hfront path hpath)⟩
  have hall : ((pathsOf attachments).filterMap uploadOf).length = (pathsOf attachments).length := by
    rw [heq, List.filterMap_length_eq_length]
    exact fun path hpath => isSome_uploadAttachment.trans (h path hpath).1
  have hsome := List.filterMap_length_eq_length.mp hall path hpath
  rw [uploadOf] at hsome
  split_ifs at hsome with hfront
  · exact hfront
  · cases hsome

/-- A text without an upload path is left as it is. A message is split into its text, with its end trimmed, and its
uploads exactly where it has none, or no line of the text ends in a blank and every path has something in front of its
directory. -/
theorem splitUploads_messageText_iff (htext : NoUploads text.toList) (h : AreUploads attachments) :
    splitUploads text.toList = (text.toList, []) ∧
    (splitUploads (messageText text attachments).toList =
        (trimEnd text.toList, (pathsOf attachments).filterMap uploadAttachment) ↔
      attachments = [] ∨ LinesKept (trimEnd text.toList) ∧ ∀ path ∈ pathsOf attachments, hasFront path) := by
  have hsplit := replaceUploads_messageText htext h
  refine ⟨by rw [splitUploads, replaceUploads_of_none htext]; rfl, ?_⟩
  rw [splitUploads, hsplit]
  dsimp only
  by_cases hnone : attachments = []
  · subst hnone
    refine iff_of_true ?_ (.inl rfl)
    rw [if_pos (show (pathsOf []).filterMap uploadOf = [] from rfl), messageText_eq h]
    split_ifs with hbody <;> simp [hbody, pathsOf]
  rw [or_iff_right hnone]
  by_cases hfront : ∀ path ∈ pathsOf attachments, hasFront path
  · have hall := (filterMap_uploadOf_iff h).mpr hfront
    obtain ⟨a, rest, hcons⟩ := List.exists_cons_of_ne_nil hnone
    have hsome : (pathsOf attachments).filterMap uploadAttachment ≠ [] := by
      obtain ⟨upload, hupload⟩ := Option.isSome_iff_exists.mp (isSome_uploadAttachment.trans
        (h a.path.toList (by rw [hcons]; exact List.mem_cons_self)).1)
      simp [hcons, pathsOf, hupload]
    have hgone : ∀ part ∈ (pathsOf attachments).map fun path => (cutWord path).1, part = [] := by
      intro part hpart
      obtain ⟨path, hpath, rfl⟩ := List.mem_map.mp hpart
      obtain ⟨upload, hupload⟩ := Option.isSome_iff_exists.mp (isSome_uploadAttachment.trans (h path hpath).1)
      rw [cutWord, uploadOf, if_pos (hfront path hpath), hupload]
    obtain ⟨w, hw, heq⟩ := intercalate_body (trimEnd text.toList) hgone
    have htrim := PromptBinding.trimEnd_trimEnd text.toList
    rw [hall, if_neg hsome, heq, stripLines_append (stripLines_of_blank hw), trimEnd_stripLines htrim, Prod.mk.injEq,
      stripLines_iff htrim]
    exact and_congr_right fun _ => iff_of_true rfl hfront
  · refine iff_of_false (fun heq => hfront ((filterMap_uploadOf_iff h).mp ?_)) fun hall => hfront hall.2
    split_ifs at heq <;> exact (Prod.mk.inj heq).2

end

/-- A text of two lines and its upload. -/
theorem splitUploads_messageText_iff_lines : splitUploads (messageText "look:\n  here"
    [{ name := "a", path := "/s/uploads/w1-mgx0a1-0123abcd.png" }]).toList = ("look:\n  here".toList,
      (pathsOf [{ name := "a", path := "/s/uploads/w1-mgx0a1-0123abcd.png" }]).filterMap uploadAttachment) := by
  refine (splitUploads_messageText_iff ?_ ?_).2.mpr (.inr ⟨?_, ?_⟩)
  · decide +kernel
  · decide +kernel
  · decide +kernel
  · decide +kernel

/-- The two blanks of a Markdown line break are gone from the text that comes back. -/
theorem splitUploads_breaks_lines : NoUploads "one  \ntwo".toList ∧
    (uploadNameOf "/s/uploads/w1-mgx0a1-0123abcd.png".toList).isSome ∧
    (splitUploads (messageText "one  \ntwo"
      [{ name := "a", path := "/s/uploads/w1-mgx0a1-0123abcd.png" }]).toList).1 = "one\ntwo".toList := by
  refine ⟨?_, ?_, ?_⟩ <;> decide +kernel

end Sightr
