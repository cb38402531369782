import Sightr.Lib.JsText
import Sightr.Send.Recipes

/-!
# The operator's own answer

`bridge/threads/free-text.ts`: the answer is typed into the dialog's free-text row and submitted when a
read shows it there. The row comes from the dialog at the screen's tail, `freeTextOfBlock` of
`shared/harness/dialog-kit.ts`; which dialog a screen shows is the adapter's business.

Two reads are of one row when their identities are one string: the kind, the question, the options and,
for a wizard, whether the row holds a saved answer.
-/

namespace Sightr

/-! ### Rows -/

inductive PromptFamily
  | select | permission | trust | plan
  deriving DecidableEq

def PromptFamily.text : PromptFamily → String
  | .select => "select"
  | .permission => "permission"
  | .trust => "trust"
  | .plan => "plan"

structure PromptOption where
  label : String
  keys : List String
  keyLabel : Option String := none
  deriving DecidableEq

inductive PromptFeedbackPurpose
  | planChange | freeText
  deriving DecidableEq

structure PromptFeedback where
  key : String
  focused : Bool
  text : String
  purpose : Option PromptFeedbackPurpose := none
  openKeys : Option (List String) := none
  editing : Option Bool := none
  deriving DecidableEq

structure PromptModel where
  question : String
  options : List PromptOption
  family : PromptFamily
  feedback : Option PromptFeedback := none
  /-- The dialog asks for a decision beside its options. -/
  decision : Bool := false
  deriving DecidableEq

structure WizardOption where
  label : String
  chosen : Bool
  deriving DecidableEq

structure WizardFeedback where
  keys : List String
  keyLabel : String
  editing : Bool
  text : String
  customChosen : Bool
  deriving DecidableEq

structure WizardQuestion where
  steps : List WizardStepChip
  question : String
  options : List WizardOption
  feedback : Option WizardFeedback := none
  deriving DecidableEq

/-- The dialog at the tail of a screen, as its adapter lifts it; only two kinds have a row to type into. -/
inductive DialogBlock
  | promptSelect (prompt : PromptModel)
  | wizard (question : WizardQuestion)
  | other
  deriving DecidableEq

structure FreeTextRow where
  /-- The keys that make the row take typing; none when it already does. -/
  openKeys : List String
  ready : Bool
  text : String
  typeable : Bool
  submitKeys : List String
  identity : String
  deriving DecidableEq

def promptLines (m : PromptModel) (f : PromptFeedback) : List String :=
  ["prompt-select", m.family.text, m.question, f.key] ++
    m.options.map fun o => o.keyLabel.getD (" ".intercalate o.keys) ++ "\t" ++ o.label

/-- The lines of a wizard's identity before the saved answer's. -/
def wizardHead (w : WizardQuestion) (f : WizardFeedback) : List String :=
  ["wizard"] ++ (w.steps.map fun s => s.label ++ "\t" ++ toString s.answered ++ "\t" ++ toString s.current) ++
    [w.question, f.keyLabel]

def wizardOptionLine (o : WizardOption) : String := o.label ++ "\t" ++ toString o.chosen

def freeTextOfBlock : DialogBlock → Option FreeTextRow
  | .promptSelect m => do
    let f ← m.feedback
    let openKeys ← f.openKeys
    if f.purpose ≠ some .freeText ∨ m.decision then none
    else
      let ready := f.editing.getD f.focused
      some {
        openKeys := if ready then [] else openKeys
        ready
        text := f.text
        typeable := f.text == ""
        submitKeys := ["Enter"]
        identity := "\n".intercalate (promptLines m f) }
  | .wizard w => do
    let f ← w.feedback
    some {
      openKeys := if f.editing then [] else f.keys
      ready := f.editing
      text := f.text
      typeable := f.text == "" && !f.customChosen
      submitKeys := ["Enter"]
      identity := "\n".intercalate (wizardHead w f ++ [toString f.customChosen] ++ w.options.map wizardOptionLine) }
  | .other => none

/-- An option's label is one line of the screen, or lines of it joined by spaces. -/
def DialogBlock.InLine : DialogBlock → Prop
  | .wizard w => ∀ o ∈ w.options, '\n' ∉ o.label.toList
  | _ => True

/-! ### Identities -/

variable (s : String)

private def linesOf : List (List Char) := s.toList.splitOn '\n'

theorem linesOf_newline (s t : String) : linesOf (s ++ "\n" ++ t) = linesOf s ++ linesOf t := by
  rw [linesOf, String.toList_append, String.toList_append, List.append_assoc]
  exact List.splitOn_append_cons_of_beq _ _ (by rfl)

theorem linesOf_intercalate {l : List String} (h : l ≠ []) : linesOf ("\n".intercalate l) = l.flatMap linesOf := by
  induction l with
  | nil => exact absurd rfl h
  | cons line l ih =>
    cases l with
    | nil => simp
    | cons next l =>
      rw [String.intercalate_cons_cons, linesOf_newline, ih (by simp), List.flatMap_cons (x := line)]

theorem linesOf_eq_singleton {s : String} (h : '\n' ∉ s.toList) : linesOf s = [s.toList] :=
  List.splitOn_eq_singleton h

theorem linesOf_head {kind : String} (rest : List String) (h : '\n' ∉ kind.toList) :
    (linesOf ("\n".intercalate (kind :: rest))).head? = some kind.toList := by
  rw [linesOf_intercalate (by simp), List.flatMap_cons, linesOf_eq_singleton h]
  rfl

/-- The lines without a tab; the line of an option has one. -/
private def plainLines : List (List Char) := (linesOf s).filter ('\t' ∉ ·)

theorem plainLines_option {o : WizardOption} (h : '\n' ∉ o.label.toList) :
    plainLines (wizardOptionLine o) = [] := by
  have hmark : ∀ chosen : Bool, '\n' ∉ (toString chosen).toList := by decide
  have hline : '\n' ∉ (wizardOptionLine o).toList := by simp [wizardOptionLine, h, hmark]
  rw [plainLines, linesOf_eq_singleton hline]
  simp [wizardOptionLine]

theorem plainLines_wizard {w : WizardQuestion} (f : WizardFeedback) (h : ∀ o ∈ w.options, '\n' ∉ o.label.toList) :
    (plainLines ("\n".intercalate
      (wizardHead w f ++ [toString f.customChosen] ++ w.options.map wizardOptionLine))).getLast? =
      some (toString f.customChosen).toList := by
  have hoptions : (w.options.map wizardOptionLine).flatMap plainLines = [] := by
    rw [List.flatMap_map, List.flatMap_eq_nil_iff]
    exact fun o ho => plainLines_option (h o ho)
  have hchosen : plainLines (toString f.customChosen) = [(toString f.customChosen).toList] := by
    cases f.customChosen <;> decide
  have hplain : ∀ l : List String, (l.flatMap linesOf).filter ('\t' ∉ ·) = l.flatMap plainLines :=
    fun l => List.filter_flatMap
  rw [plainLines, linesOf_intercalate (by simp), hplain, List.flatMap_append, List.flatMap_append, hoptions,
    List.append_nil, List.flatMap_singleton, hchosen, List.getLast?_concat]

/-- A row of the identity of one that may be typed into may be typed into, if it is empty. -/
theorem typeable_of_identity_eq {a b : DialogBlock} {tapped row : FreeTextRow} (ha : freeTextOfBlock a = some tapped)
    (hb : freeTextOfBlock b = some row) (haline : a.InLine) (hbline : b.InLine)
    (hsame : row.identity = tapped.identity) (htapped : tapped.typeable = true) (hempty : row.text = "") :
    row.typeable = true := by
  cases b with
  | other => cases hb
  | promptSelect m =>
    obtain ⟨f, hf, hb⟩ := Option.bind_eq_some_iff.mp hb
    obtain ⟨keys, hkeys, hb⟩ := Option.bind_eq_some_iff.mp hb
    split_ifs at hb
    cases hb
    exact beq_iff_eq.mpr hempty
  | wizard w =>
    obtain ⟨f, hf, hb⟩ := Option.bind_eq_some_iff.mp hb
    cases hb
    cases a with
    | other => cases ha
    | promptSelect m =>
      obtain ⟨g, hg, ha⟩ := Option.bind_eq_some_iff.mp ha
      obtain ⟨keys, hkeys, ha⟩ := Option.bind_eq_some_iff.mp ha
      split_ifs at ha
      cases ha
      -- The first line names the kind.
      have hkind := (linesOf_head _ (by decide)).symm.trans
        ((congrArg (fun s => (linesOf s).head?) hsame).trans (linesOf_head _ (by decide)))
      exact absurd hkind (by decide)
    | wizard v =>
      obtain ⟨g, hg, ha⟩ := Option.bind_eq_some_iff.mp ha
      cases ha
      have hlast := (plainLines_wizard f hbline).symm.trans
        ((congrArg (fun s => (plainLines s).getLast?) hsame).trans (plainLines_wizard g haline))
      have hchosen : f.customChosen = g.customChosen := by
        revert hlast
        cases f.customChosen <;> cases g.customChosen <;> decide
      have hgchosen := (Bool.and_eq_true_iff.mp htapped).2
      dsimp only at hempty ⊢
      rw [hchosen, hgchosen, hempty]
      rfl

/-! ### Texts up to white space -/

/-- `s.replace(/\s+/g, " ")`; `inside` while a run of white space is being read. -/
def collapse : (inside : Bool) → List Char → List Char
  | _, [] => []
  | inside, c :: s =>
    if JsText.isSpace c then if inside then collapse true s else ' ' :: collapse true s else c :: collapse false s

def norm : List Char := JsText.trim (collapse false s.toList)

def squash : List Char := s.toList.filter fun c => !JsText.isSpace c

def sameText (shown ours : String) : Bool := norm shown == norm ours || squash shown == squash ours

theorem filter_collapse (inside : Bool) (s : List Char) :
    (collapse inside s).filter (fun c => !JsText.isSpace c) = s.filter fun c => !JsText.isSpace c := by
  induction s generalizing inside with
  | nil => rfl
  | cons c s ih =>
    rw [collapse]
    split_ifs with hspace hinside
    · rw [ih, List.filter_cons_of_neg (by simpa using hspace)]
    · rw [List.filter_cons_of_neg (by decide), ih, List.filter_cons_of_neg (by simpa using hspace)]
    · rw [List.filter_cons_of_pos (by simpa using hspace), ih, List.filter_cons_of_pos (by simpa using hspace)]

theorem filter_dropWhile_isSpace (s : List Char) :
    (s.dropWhile JsText.isSpace).filter (fun c => !JsText.isSpace c) = s.filter fun c => !JsText.isSpace c := by
  induction s with
  | nil => rfl
  | cons c s ih =>
    rw [List.dropWhile_cons]
    split_ifs with hspace
    · rw [ih, List.filter_cons_of_neg (by simpa using hspace)]
    · rfl

theorem squash_eq_filter_norm : (norm s).filter (fun c => !JsText.isSpace c) = squash s := by
  rw [norm, JsText.trim, JsText.trimEnd, JsText.trimStart, List.filter_reverse, filter_dropWhile_isSpace,
    ← List.filter_reverse, List.reverse_reverse, filter_dropWhile_isSpace, filter_collapse, squash]

theorem sameText_iff {shown ours : String} : sameText shown ours = true ↔ squash shown = squash ours := by
  rw [sameText, Bool.or_eq_true, beq_iff_eq, beq_iff_eq]
  refine ⟨fun h => h.elim (fun hnorm => ?_) id, .inr⟩
  rw [← squash_eq_filter_norm, ← squash_eq_filter_norm, hnorm]

/-! ### The recipe -/

inductive RowWriteResult
  | sent | changed
  | error (error : String)
  deriving DecidableEq

inductive FreeTextEvent
  /-- A read: none when it threw, and then none when the screen has no such row. -/
  | read (answer : Option (Option FreeTextRow))
  | send (keys : List String) (result : RowWriteResult)
  | type (text : String) (result : RowWriteResult)
  | sleep (ms : Nat)
  deriving DecidableEq

/-- What the recipe needs from its caller: a read is a screen's text, or the error it threw. -/
structure FreeTextIO where
  read : List FreeTextEvent → Except String String
  send : List FreeTextEvent → List String → RowWriteResult
  type : List FreeTextEvent → String → RowWriteResult

structure FreeTextResult where
  result : RowWriteResult
  typed : Bool := false
  deriving DecidableEq

section

variable (dialogBlock : String → Option DialogBlock) (io : FreeTextIO)

/-- The row of the dialog at the tail of a screen; `dialogBlock` lifts that dialog. -/
def freeTextModel (ansiText : String) : Option FreeTextRow :=
  if ansiText.isEmpty then none else (dialogBlock ansiText).bind freeTextOfBlock

def readRow : Logged FreeTextEvent (Except String (Option FreeTextRow)) :=
  Logged.perform (fun log => (io.read log).map (freeTextModel dialogBlock)) fun answer => .read answer.toOption

def sendKeys (keys : List String) : Logged FreeTextEvent RowWriteResult :=
  Logged.perform (fun log => io.send log keys) (.send keys)

def typeText (text : String) : Logged FreeTextEvent RowWriteResult :=
  Logged.perform (fun log => io.type log text) (.type text)

/-- `pollModel` on the row: poll until `accept` passes on a fresh read of the tapped row. -/
def pollRow (tapped : FreeTextRow) (accept : FreeTextRow → Bool) :
    (attempts : Nat) → (sawDialog : Bool) → Logged FreeTextEvent (PollOutcome FreeTextRow)
  | 0, sawDialog => pure (if sawDialog then .timeout else .drifted)
  | attempts + 1, sawDialog => do
    Logged.perform (fun _ => ()) fun _ => .sleep POLL_DELAY_MS
    match ← readRow dialogBlock io with
    | .ok (some row) =>
      if accept row then pure (.ok row)
      else if row.identity != tapped.identity then pure .drifted
      else pollRow tapped accept attempts true
    | _ => pollRow tapped accept attempts sawDialog

/-- Type into the row that is ready, and submit what shows there. -/
def typeAnswer (first : FreeTextRow) (text : String) : Logged FreeTextEvent FreeTextResult := do
  match ← typeText io text with
  | .sent =>
    match ← pollRow dialogBlock io first
        (fun m => m.identity == first.identity && m.ready && sameText m.text text) POLL_ATTEMPTS false with
    | .ok _ => do
      let submitted ← sendKeys io first.submitKeys
      pure { result := submitted, typed := true }
    | _ =>
      pure {
        result := .error
          "Your answer was typed but did not show in the dialog, so it was not sent. Check the Terminal tab."
        typed := true }
  | failed => pure { result := failed }

def freeTextRecipe (text : String) : Logged FreeTextEvent FreeTextResult := do
  match ← readRow dialogBlock io with
  | .error message => pure { result := .error ("herdr read failed: " ++ message) }
  | .ok none => pure { result := .changed }
  | .ok (some first) =>
    if !first.typeable then pure { result := .changed }
    else if first.ready then typeAnswer dialogBlock io first text
    else
      match ← sendKeys io first.openKeys with
      | .sent =>
        match ← pollRow dialogBlock io first
            (fun m => m.identity == first.identity && m.ready && m.text == "") POLL_ATTEMPTS false with
        | .ok _ => typeAnswer dialogBlock io first text
        | .drifted => pure { result := .changed }
        | .timeout => pure { result := .error "The answer box did not open. Check the Terminal tab." }
      | failed => pure { result := failed }

end

/-! ### What stands before a write -/

def FreeTextEvent.isWrite : FreeTextEvent → Bool
  | .send _ _ | .type _ _ => true
  | .read _ | .sleep _ => false

def tappedRow (log : List FreeTextEvent) : Option FreeTextRow :=
  match log.head? with
  | some (.read (some row)) => row
  | _ => none

def ShowsOnly (tapped : FreeTextRow) (log : List FreeTextEvent) : Prop :=
  ∀ row, .read (some (some row)) ∈ log → row.identity = tapped.identity

/-- The last thing done was a read of the tapped row, which takes typing. -/
structure JustRead (tapped : FreeTextRow) (log : List FreeTextEvent) (row : FreeTextRow) : Prop where
  last : log.getLast? = some (.read (some (some row)))
  same : row.identity = tapped.identity
  ready : row.ready = true

def JustTyped (text : String) (log : List FreeTextEvent) : Prop :=
  ∃ pre post, log = pre ++ .type text .sent :: post ∧ ∀ e ∈ post, e.isWrite = false

/-- A write is of the tapped row, which every read so far has shown. The text is typed once, into the row a read has
just shown empty; its submit keys go out once, after the text, when a read has just shown it there. -/
def RowAllowed (text : String) (log : List FreeTextEvent) : FreeTextEvent → Prop
  | .read _ | .sleep _ => True
  | .type typed _ => ∃ tapped ∈ tappedRow log, ShowsOnly tapped log ∧ typed = text ∧
      (∀ earlier result, .type earlier result ∉ log) ∧
      ∃ row, JustRead tapped log row ∧ row.text = "" ∧ row.typeable = true
  | .send keys _ => ∃ tapped ∈ tappedRow log, ShowsOnly tapped log ∧
      (keys = tapped.openKeys ∧ (∀ e ∈ log, e.isWrite = false) ∨ keys = tapped.submitKeys ∧ JustTyped text log ∧
          ∃ row, JustRead tapped log row ∧ squash row.text = squash text)

private def IsRow (row : FreeTextRow) : Prop := ∃ block : DialogBlock, block.InLine ∧ freeTextOfBlock block = some row

/-- Every write was allowed, and the first read found `first`. -/
private structure Begun (text : String) (first : FreeTextRow) (log : List FreeTextEvent) : Prop where
  each : Logged.Each (RowAllowed text) log
  tapped : tappedRow log = some first

theorem tappedRow_append {log : List FreeTextEvent} {first : FreeTextRow} (h : tappedRow log = some first)
    (more : List FreeTextEvent) : tappedRow (log ++ more) = some first := by
  cases log with
  | nil => cases h
  | cons e log => exact h

variable {text : String} {first : FreeTextRow} {log : List FreeTextEvent}

variable {e : FreeTextEvent}

private theorem Begun.concat (h : Begun text first log) (he : RowAllowed text log e) :
    Begun text first (log ++ [e]) :=
  ⟨Logged.each_concat.mpr ⟨h.each, he⟩, tappedRow_append h.tapped _⟩

theorem rowAllowed_of_quiet (he : e.isWrite = false) : RowAllowed text log e := by
  cases e with
  | read | sleep => trivial
  | send | type => cases he

private theorem JustTyped.concat (h : JustTyped text log) (he : e.isWrite = false) :
    JustTyped text (log ++ [e]) := by
  obtain ⟨pre, post, rfl, hquiet⟩ := h
  refine ⟨pre, post ++ [e], by simp, List.forall_mem_append.mpr ⟨hquiet, ?_⟩⟩
  simpa using he

/-! ### Polls -/

section

variable {dialogBlock : String → Option DialogBlock} {io : FreeTextIO} {P : List FreeTextEvent → Prop}

variable {row : FreeTextRow}

section

variable (hline : ∀ screen block, dialogBlock screen = some block → block.InLine)
include hline

theorem readRow_isRow (h : (io.read log).map (freeTextModel dialogBlock) = .ok (some row)) : IsRow row := by
  cases hread : io.read log with
  | error message =>
    rw [hread] at h
    cases h
  | ok screen =>
    rw [hread] at h
    have hmodel : freeTextModel dialogBlock screen = some row := Except.ok.inj h
    unfold freeTextModel at hmodel
    split_ifs at hmodel
    obtain ⟨block, hblock, hrow⟩ := Option.bind_eq_some_iff.mp hmodel
    exact ⟨block, hline _ _ hblock, hrow⟩

theorem readRow_spec (hP : ∀ log e, P log → e.isWrite = false → P (log ++ [e])) :
    Logged.Triple (fun log => P log ∧ ShowsOnly first log) (readRow dialogBlock io) fun answer log =>
      P log ∧ ((∀ row, answer = .ok (some row) → row.identity = first.identity) → ShowsOnly first log) ∧
        ∀ row, answer = .ok (some row) → IsRow row ∧ log.getLast? = some (.read (some (some row))) := by
  refine Logged.Triple.perform fun log h => ⟨hP log _ h.1 rfl, fun hsame row hrow => ?_, fun row hrow => ?_⟩
  · rcases List.mem_append.mp hrow with hrow | hrow
    · exact h.2 row hrow
    · refine hsame row ?_
      have hlast := FreeTextEvent.read.inj (List.mem_singleton.mp hrow)
      cases hanswer : (io.read log).map (freeTextModel dialogBlock) with
      | error message =>
        rw [hanswer] at hlast
        cases hlast
      | ok answer =>
        rw [hanswer] at hlast
        rw [← Option.some.inj hlast]
  · refine ⟨readRow_isRow hline hrow, ?_⟩
    rw [List.getLast?_concat, hrow]
    rfl

end

theorem pollRow_spec (io : FreeTextIO) (first : FreeTextRow) (accept : FreeTextRow → Bool)
    (hline : ∀ screen block, dialogBlock screen = some block → block.InLine)
    (hP : ∀ log e, P log → e.isWrite = false → P (log ++ [e]))
    (haccept : ∀ row, accept row = true → row.identity = first.identity) (attempts : Nat) (sawDialog : Bool) :
    Logged.Triple (fun log => P log ∧ ShowsOnly first log) (pollRow dialogBlock io first accept attempts sawDialog)
      fun outcome log => P log ∧ ∀ row, outcome = .ok row → ShowsOnly first log ∧ accept row = true ∧ IsRow row ∧
        log.getLast? = some (.read (some (some row))) := by
  induction attempts generalizing sawDialog with
  | zero =>
    refine Logged.Triple.pure fun log h => ⟨h.1, fun row hrow => ?_⟩
    split at hrow <;> cases hrow
  | succ attempts ih =>
    rw [pollRow]
    have hsleep : Logged.Triple (fun log => P log ∧ ShowsOnly first log)
        (Logged.perform (fun _ => ()) fun _ => FreeTextEvent.sleep POLL_DELAY_MS) fun _ log =>
          P log ∧ ShowsOnly first log :=
      Logged.Triple.perform fun log h => ⟨hP log _ h.1 rfl, fun row hrow => h.2 row (by simpa using hrow)⟩
    refine hsleep.bind fun _ => (readRow_spec hline hP).bind fun answer => ?_
    rcases answer with message | _ | row
    · exact (ih sawDialog).pre fun log h => ⟨h.1, h.2.1 fun row hrow => (by cases hrow)⟩
    · exact (ih sawDialog).pre fun log h => ⟨h.1, h.2.1 fun row hrow => (by cases hrow)⟩
    · dsimp only
      split_ifs with hok hother
      · refine Logged.Triple.pure fun log h => ⟨h.1, fun row' hrow' => ?_⟩
        cases hrow'
        obtain ⟨hrow, hlast⟩ := h.2.2 row rfl
        exact ⟨h.2.1 fun row' hrow' => (by cases hrow'; exact haccept row hok), hok, hrow, hlast⟩
      · exact Logged.Triple.pure fun log h => ⟨h.1, fun row' hrow' => (by cases hrow')⟩
      · refine (ih true).pre fun log h => ⟨h.1, h.2.1 fun row' hrow' => ?_⟩
        cases hrow'
        simpa using hother

/-! ### The recipe's run -/

/-- What a finished recipe leaves: every write was allowed, and its result says whether the text was typed. -/
structure AnswersRow (text : String) (result : FreeTextResult) (log : List FreeTextEvent) : Prop where
  each : Logged.Each (RowAllowed text) log
  typed : result.typed = true ↔ .type text .sent ∈ log

private def Untyped (log : List FreeTextEvent) : Prop := ∀ typed result, .type typed result ∉ log

variable {e : FreeTextEvent}

private theorem Untyped.concat (h : Untyped log) (he : ∀ typed result, e ≠ .type typed result) :
    Untyped (log ++ [e]) := by
  intro typed result hmem
  rcases List.mem_append.mp hmem with hmem | hmem
  · exact h typed result hmem
  · exact he typed result (List.mem_singleton.mp hmem).symm

theorem Untyped.concat_quiet (h : Untyped log) (he : e.isWrite = false) : Untyped (log ++ [e]) :=
  h.concat fun typed result hwrite => by
    rw [hwrite] at he
    cases he

theorem ShowsOnly.concat_write (h : ShowsOnly first log) (he : e.isWrite = true) :
    ShowsOnly first (log ++ [e]) := by
  intro row hrow
  rcases List.mem_append.mp hrow with hrow | hrow
  · exact h row hrow
  · rw [← List.mem_singleton.mp hrow] at he
    cases he

private theorem JustTyped.mem (h : JustTyped text log) : .type text .sent ∈ log := by
  obtain ⟨pre, post, rfl, -⟩ := h
  simp

theorem typeAnswer_spec (hline : ∀ screen block, dialogBlock screen = some block → block.InLine) :
    Logged.Triple (fun log => Begun text first log ∧ Untyped log ∧ ShowsOnly first log ∧
        ∃ row, JustRead first log row ∧ row.text = "" ∧ row.typeable = true)
      (typeAnswer dialogBlock io first text) (AnswersRow text) := by
  rw [typeAnswer]
  have htype : Logged.Triple (fun log => Begun text first log ∧ Untyped log ∧ ShowsOnly first log ∧
        ∃ row, JustRead first log row ∧ row.text = "" ∧ row.typeable = true) (typeText io text) fun result log =>
      Begun text first log ∧ ShowsOnly first log ∧ (result = .sent → JustTyped text log) ∧
        (result ≠ .sent → .type text .sent ∉ log) := by
    refine Logged.Triple.perform fun log h => ⟨h.1.concat ?_, h.2.2.1.concat_write rfl, fun hsent => ?_,
      fun hnot => ?_⟩
    · exact ⟨first, h.1.tapped, h.2.2.1, rfl, h.2.1, h.2.2.2⟩
    · exact ⟨log, [], by rw [hsent], fun _ he => absurd he List.not_mem_nil⟩
    · simp [h.2.1 text .sent, Ne.symm hnot]
  refine htype.bind fun result => ?_
  cases result with
  | changed | error =>
    refine Logged.Triple.pure fun log h => ⟨h.1.each, ?_⟩
    simpa using h.2.2.2 (by simp)
  | sent =>
    have hpoll := pollRow_spec (P := fun log => Begun text first log ∧ JustTyped text log) io first
      (fun m => m.identity == first.identity && m.ready && sameText m.text text) hline
      (fun log e h he => ⟨h.1.concat (rowAllowed_of_quiet he), h.2.concat he⟩)
      (fun row haccept => by simp only [Bool.and_eq_true, beq_iff_eq] at haccept; exact haccept.1.1)
      POLL_ATTEMPTS false
    refine (hpoll.pre fun log h => ⟨⟨h.1, h.2.2.1 rfl⟩, h.2.1⟩).bind fun outcome => ?_
    cases outcome with
    | drifted | timeout =>
      exact Logged.Triple.pure fun log h => ⟨h.1.1.each, iff_of_true rfl h.1.2.mem⟩
    | ok row =>
      have hsubmit : Logged.Triple (fun log => (Begun text first log ∧ JustTyped text log) ∧
            ∀ row', PollOutcome.ok row = .ok row' → ShowsOnly first log ∧
              (row'.identity == first.identity && row'.ready && sameText row'.text text) = true ∧ IsRow row' ∧
              log.getLast? = some (.read (some (some row'))))
          (sendKeys io first.submitKeys) fun _ log =>
            Logged.Each (RowAllowed text) log ∧ .type text .sent ∈ log := by
        refine Logged.Triple.perform fun log h => ?_
        obtain ⟨hshows, haccept, -, hlast⟩ := h.2 row rfl
        simp only [Bool.and_eq_true, beq_iff_eq] at haccept
        refine ⟨(h.1.1.concat ?_).each, List.mem_append_left _ h.1.2.mem⟩
        exact ⟨first, h.1.1.tapped, hshows, .inr ⟨rfl, h.1.2, row, ⟨hlast, haccept.1.1, haccept.1.2⟩,
          sameText_iff.mp haccept.2⟩⟩
      exact hsubmit.bind fun result => Logged.Triple.pure fun log h => ⟨h.1, iff_of_true rfl h.2⟩

theorem begun_first (row : FreeTextRow) : Begun text row [.read (some (some row))] :=
  ⟨Logged.each_concat.mpr ⟨Logged.each_nil, trivial⟩, rfl⟩

theorem showsOnly_first (row : FreeTextRow) : ShowsOnly row [.read (some (some row))] := by
  intro row' hrow'
  cases List.mem_singleton.mp hrow'
  rfl

theorem untyped_first (answer : Option (Option FreeTextRow)) : Untyped [.read answer] :=
  fun _ _ h => by cases List.mem_singleton.mp h

theorem text_of_typeable {block : DialogBlock} (h : freeTextOfBlock block = some row)
    (htypeable : row.typeable = true) : row.text = "" := by
  cases block with
  | other => cases h
  | promptSelect m =>
    obtain ⟨f, -, h⟩ := Option.bind_eq_some_iff.mp h
    obtain ⟨keys, -, h⟩ := Option.bind_eq_some_iff.mp h
    split_ifs at h
    cases h
    exact beq_iff_eq.mp htypeable
  | wizard w =>
    obtain ⟨f, -, h⟩ := Option.bind_eq_some_iff.mp h
    cases h
    exact beq_iff_eq.mp (Bool.and_eq_true_iff.mp htypeable).1

theorem openRow_spec (hline : ∀ screen block, dialogBlock screen = some block → block.InLine)
    (hfirst : IsRow first) (htypeable : first.typeable = true) :
    Logged.Triple (· = [.read (some (some first))]) (do match ← sendKeys io first.openKeys with
        | .sent =>
          match ← pollRow dialogBlock io first
              (fun m => m.identity == first.identity && m.ready && m.text == "") POLL_ATTEMPTS false with
          | .ok _ => typeAnswer dialogBlock io first text
          | .drifted => pure { result := .changed }
          | .timeout => pure { result := .error "The answer box did not open. Check the Terminal tab." }
        | failed => pure { result := failed }) (AnswersRow text) := by
  have hopen : Logged.Triple (· = [.read (some (some first))]) (sendKeys io first.openKeys) fun _ log =>
      (Begun text first log ∧ Untyped log) ∧ ShowsOnly first log := by
    refine Logged.Triple.perform ?_
    rintro log rfl
    refine ⟨⟨(begun_first first).concat ?_, (untyped_first _).concat fun _ _ he => (by cases he)⟩,
      (showsOnly_first first).concat_write rfl⟩
    refine ⟨first, rfl, showsOnly_first first, .inl ⟨rfl, fun e he => ?_⟩⟩
    cases List.mem_singleton.mp he
    rfl
  have hquits (result : RowWriteResult) : Logged.Triple (fun log => Begun text first log ∧ Untyped log)
      (pure { result := result }) (AnswersRow text) :=
    Logged.Triple.pure fun log h => ⟨h.1.each, iff_of_false Bool.false_ne_true (h.2 text .sent)⟩
  refine hopen.bind fun result => ?_
  cases result with
  | changed | error => exact (hquits _).pre fun log h => h.1
  | sent =>
    have hpoll := pollRow_spec (P := fun log => Begun text first log ∧ Untyped log) io first
      (fun m => m.identity == first.identity && m.ready && m.text == "") hline
      (fun log e h he => ⟨h.1.concat (rowAllowed_of_quiet he), h.2.concat_quiet he⟩)
      (fun row haccept => by simp only [Bool.and_eq_true, beq_iff_eq] at haccept; exact haccept.1.1)
      POLL_ATTEMPTS false
    refine hpoll.bind fun outcome => ?_
    cases outcome with
    | drifted | timeout => exact (hquits _).pre fun log h => h.1
    | ok row =>
      refine (typeAnswer_spec hline).pre fun log h => ?_
      obtain ⟨hshows, haccept, ⟨block, hblock, hrow⟩, hlast⟩ := h.2 row rfl
      simp only [Bool.and_eq_true, beq_iff_eq] at haccept
      obtain ⟨firstBlock, hfirstBlock, hfirstRow⟩ := hfirst
      exact ⟨h.1.1, h.1.2, hshows, row, ⟨hlast, haccept.1.1, haccept.1.2⟩, haccept.2,
        typeable_of_identity_eq hfirstRow hrow hfirstBlock hblock haccept.1.1 htypeable haccept.2⟩

/-- Whatever the screens and the answers to the writes: the text is typed once at most, and only when the last thing
done was a read of the tapped row, ready, empty and free of a saved answer; its submit keys go out once at most, after
the text, and only when the last thing done was a read of the row that shows it; after a read of another row nothing
is written; and the result says whether the text was typed. -/
theorem freeTextRecipe_rowAllowed (dialogBlock : String → Option DialogBlock)
    (hline : ∀ screen block, dialogBlock screen = some block → block.InLine) (io : FreeTextIO) (text : String) :
    AnswersRow text (freeTextRecipe dialogBlock io text []).1 (freeTextRecipe dialogBlock io text []).2 := by
  have hread : Logged.Triple (· = []) (readRow dialogBlock io) fun answer log =>
      log = [.read answer.toOption] ∧ ∀ row, answer = .ok (some row) → IsRow row := by
    refine Logged.Triple.perform ?_
    rintro log rfl
    exact ⟨rfl, fun row hrow => readRow_isRow hline hrow⟩
  have hnone (answer : Option (Option FreeTextRow)) (result : RowWriteResult) :
      AnswersRow text { result } [.read answer] :=
    ⟨Logged.each_concat.mpr ⟨Logged.each_nil, trivial⟩, iff_of_false Bool.false_ne_true (untyped_first _ text .sent)⟩
  suffices hspec : Logged.Triple (· = []) (freeTextRecipe dialogBlock io text) (AnswersRow text) from hspec [] rfl
  rw [freeTextRecipe]
  refine hread.bind fun answer => ?_
  rcases answer with message | _ | first
  · exact Logged.Triple.pure fun log h => h.1 ▸ hnone _ _
  · exact Logged.Triple.pure fun log h => h.1 ▸ hnone _ _
  dsimp only
  split_ifs with huntypeable hready
  · exact Logged.Triple.pure fun log h => h.1 ▸ hnone _ _
  · refine (typeAnswer_spec hline).pre fun log h => ?_
    obtain ⟨block, -, hblock⟩ := h.2 first rfl
    have htypeable : first.typeable = true := by simpa using huntypeable
    rw [h.1]
    exact ⟨begun_first first, untyped_first _, showsOnly_first first, first, ⟨rfl, rfl, hready⟩,
      text_of_typeable hblock htypeable, htypeable⟩
  · intro log h
    exact openRow_spec hline (h.2 first rfl) (by simpa using huntypeable) log h.1

end

/-! ### A wizard's row -/

/-- A question with one option and a row to type into. -/
private def askBlock (editing : Bool) (text : String) : DialogBlock :=
  .wizard {
    steps := [{ label := "Scope", answered := false, current := true }]
    question := "How far?"
    options := [{ label := "All of it", chosen := false }]
    feedback := some { keys := ["2"], keyLabel := "2", editing, text, customChosen := false } }

/-- The screens show the row closed, open, or with a text in it. -/
private def askScreen (screen : String) : Option DialogBlock :=
  if screen = "closed" then some (askBlock false "")
  else if screen = "open" then some (askBlock true "")
  else some (askBlock true screen)

/-- A dialog that opens its row when asked, and shows what was typed. -/
private def askIo : FreeTextIO where
  read log := .ok (match log.filter FreeTextEvent.isWrite with
    | [] => "closed"
    | [_] => "open"
    | _ => "half  of it")
  send _ _ := .sent
  type _ _ := .sent

/-- The row is opened, the answer typed, shown with another white space, and submitted. -/
theorem freeTextRecipe_rowAllowed_ask :
    (freeTextRecipe askScreen askIo "half of it" []).1 = { result := .sent, typed := true } ∧
      AnswersRow "half of it" (freeTextRecipe askScreen askIo "half of it" []).1
        (freeTextRecipe askScreen askIo "half of it" []).2 := by
  refine ⟨by decide +kernel, freeTextRecipe_rowAllowed askScreen (fun screen block hblock => ?_) askIo _⟩
  have hlabel : ∀ editing text, (askBlock editing text).InLine := by
    intro editing text o ho
    cases List.mem_singleton.mp ho
    decide
  unfold askScreen at hblock
  split_ifs at hblock <;> cases hblock <;> exact hlabel _ _

end Sightr
