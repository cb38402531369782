import Sightr.Send.Recipes
import Mathlib.Data.List.Forall2

/-!
# What an answered checkbox dialog was sent

The log of a run says what the current base is: the tapped model, and from each toggle on the read that
showed its box flipped. Every key stands on a read of that base, and the submit key on one that shows the
wanted boxes.
-/

namespace Sightr

/-! ### Comparators -/

/-- What the comparators hold fixed while boxes are toggled: the answered mark of the current step may
differ. -/
structure Dialog where
  signature : String
  chips : Option (List (String × Bool × Bool))
  advanceLabel : String
  recipe : Option MultiSelectRecipe
  question : String
  labels : List String

def chipOf (s : WizardStepChip) : String × Bool × Bool := (s.label, s.current, s.current || s.answered)

def dialogOf (m : CheckboxModel) : Dialog where
  signature := m.signature
  chips := m.steps.map (List.map chipOf)
  advanceLabel := m.advanceLabel
  recipe := m.recipe
  question := m.question
  labels := m.options.map (·.label)

theorem zip_all_iff {α β : Type} {R : α → β → Bool} {as : List α} {bs : List β} :
    (as.length = bs.length ∧ ((as.zip bs).all fun (a, b) => R a b) = true) ↔
      List.Forall₂ (fun a b => R a b = true) as bs := by
  rw [List.forall₂_iff_zip, List.all_eq_true]
  exact and_congr_right fun _ => ⟨fun h _ _ hmem => h _ hmem, fun h _ hmem => h hmem⟩

variable {a b : CheckboxModel}

theorem sameSteps_iff : sameSteps a b = true ↔ a.steps = b.steps := by
  unfold sameSteps
  split
  · rename_i as bs has hbs
    have hchip (s t : WizardStepChip) :
        (s.label == t.label && s.answered == t.answered && s.current == t.current) = true ↔ s = t := by
      obtain ⟨l, m, c⟩ := s
      obtain ⟨l', m', c'⟩ := t
      simp [and_assoc]
    rw [has, hbs, Option.some_inj, Bool.and_eq_true, beq_iff_eq]
    refine (zip_all_iff (R := fun (s t : WizardStepChip) =>
      s.label == t.label && s.answered == t.answered && s.current == t.current)).trans ?_
    simp only [hchip]
    rw [List.forall₂_eq_eq_eq]
  · rename_i has hbs
    simp [has, hbs]
  · rename_i hsome hnone
    refine iff_of_false Bool.false_ne_true fun hsame => ?_
    cases hb : b.steps with
    | none => exact hnone (hsame.trans hb) hb
    | some bs => exact hsome bs bs (hsame.trans hb) hb

theorem sameOptions_iff {as bs : List MultiSelectOption} :
    List.Forall₂ (fun o p => (o.label == p.label && o.checked == p.checked) = true) as bs ↔
      as.map (·.label) = bs.map (·.label) ∧ as.map (·.checked) = bs.map (·.checked) := by
  induction as generalizing bs with
  | nil => cases bs <;> simp
  | cons o as ih =>
    cases bs with
    | nil => simp
    | cons p bs =>
      simp only [List.forall₂_cons, List.map_cons, List.cons.injEq, ih]
      simp
      tauto

theorem multiSelectIdentity_iff : multiSelectIdentity (.checkbox a) (.checkbox b) = true ↔
      a.signature = b.signature ∧ a.steps = b.steps ∧ a.advanceLabel = b.advanceLabel ∧
        a.recipe = b.recipe ∧ a.question = b.question ∧
        a.options.map (·.label) = b.options.map (·.label) ∧
        a.options.map (·.checked) = b.options.map (·.checked) := by
  have hoptions := (zip_all_iff (R := fun (o p : MultiSelectOption) =>
    o.label == p.label && o.checked == p.checked)).trans (@sameOptions_iff a.options b.options)
  simp only [multiSelectIdentity, Bool.and_eq_true, beq_iff_eq, sameSteps_iff, and_assoc, ← hoptions]

theorem steps_eq_iff {as bs : List WizardStepChip} :
    as = bs.zipWith (fun s t => if s.current then { s with answered := t.answered } else s) as ∧
      bs.length = as.length ↔ as.map chipOf = bs.map chipOf := by
  induction as generalizing bs with
  | nil => cases bs <;> simp
  | cons t as ih =>
    cases bs with
    | nil => simp
    | cons s bs =>
      have hchip : t = (if s.current then { s with answered := t.answered } else s) ↔ chipOf t = chipOf s := by
        obtain ⟨l, m, c⟩ := s
        obtain ⟨l', m', c'⟩ := t
        cases c <;> cases c' <;> simp [chipOf]
      simp only [List.zipWith_cons_cons, List.cons.injEq, List.length_cons, Nat.add_right_cancel_iff,
        List.map_cons, ← ih, ← hchip, and_assoc]

theorem stepsOf_eq_iff : a.steps = stepsOf b a ↔ a.steps.map (List.map chipOf) = b.steps.map (List.map chipOf) := by
  unfold stepsOf
  cases ha : a.steps with
  | none => cases hb : b.steps <;> simp
  | some as =>
    cases hb : b.steps with
    | none => simp
    | some bs =>
      simp only [Option.map_some, Option.some_inj, ← steps_eq_iff]
      by_cases hlength : bs.length = as.length
      · simp [hlength]
      · simp only [hlength, if_false, Option.some_inj, and_false, iff_false]
        exact fun hsame => hlength (congrArg List.length hsame).symm

theorem labels_withChecked (options : List MultiSelectOption) (checked : List Bool) :
    (withChecked options checked).map (·.label) = options.map (·.label) :=
  List.ext_getElem (by simp [withChecked]) fun i _ _ => by simp [withChecked]

variable {checked : List Bool}

theorem boxes_withChecked {options : List MultiSelectOption} (h : options.length = checked.length) :
    (withChecked options checked).map (·.checked) = checked :=
  List.ext_getElem (by simpa [withChecked] using h) fun i _ hi => by
    simp [withChecked, List.getElem?_eq_getElem hi]

theorem sameDialogWithChecked_iff : sameDialogWithChecked (.checkbox a) (.checkbox b) checked = true ↔
      dialogOf a = dialogOf b ∧ a.options.map (·.checked) = checked := by
  simp only [sameDialogWithChecked, Bool.and_eq_true, beq_iff_eq, multiSelectIdentity_iff,
    labels_withChecked, stepsOf_eq_iff]
  constructor
  · rintro ⟨hlength, hsignature, hsteps, hadvance, hrecipe, hquestion, hlabels, hchecked⟩
    have hsame : b.options.length = checked.length := by
      rw [← hlength, ← List.length_map (f := (·.label)), ← hlabels, List.length_map]
    rw [boxes_withChecked hsame] at hchecked
    exact ⟨by simp only [dialogOf, hsignature, hsteps, hadvance, hrecipe, hquestion, hlabels], hchecked⟩
  · rintro ⟨hdialog, hchecked⟩
    simp only [dialogOf, Dialog.mk.injEq] at hdialog
    obtain ⟨hsignature, hsteps, hadvance, hrecipe, hquestion, hlabels⟩ := hdialog
    have hlength : a.options.length = checked.length := by rw [← hchecked, List.length_map]
    have hsame : b.options.length = checked.length := by
      rw [← hlength, ← List.length_map (f := (·.label)), ← hlabels, List.length_map]
    rw [boxes_withChecked hsame]
    exact ⟨hlength, hsignature, hsteps, hadvance, hrecipe, hquestion, hlabels, hchecked⟩

variable {m base : MultiSelectModel}

theorem exists_of_sameDialogWithChecked (h : sameDialogWithChecked m base checked = true) :
    ∃ a b, m = .checkbox a ∧ base = .checkbox b := by
  cases m with
  | checkbox a =>
    cases base with
    | checkbox b => exact ⟨a, b, rfl, rfl⟩
    | review => simp [sameDialogWithChecked] at h
  | review => simp [sameDialogWithChecked] at h

theorem checkedOf_of_sameDialog (h : sameDialogWithChecked m base checked = true) : checkedOf m = checked := by
  obtain ⟨a, b, rfl, rfl⟩ := exists_of_sameDialogWithChecked h
  exact (sameDialogWithChecked_iff.mp h).2

theorem sameDialog_refl (m : CheckboxModel) :
    sameDialogWithChecked (.checkbox m) (.checkbox m) (checkedOf (.checkbox m)) = true :=
  sameDialogWithChecked_iff.mpr ⟨rfl, rfl⟩

theorem sameDialog_trans {tapped : MultiSelectModel} {before : List Bool}
    (h : sameDialogWithChecked m base checked = true) (hbase : sameDialogWithChecked base tapped before = true) :
    sameDialogWithChecked m tapped checked = true := by
  obtain ⟨a, b, rfl, rfl⟩ := exists_of_sameDialogWithChecked h
  obtain ⟨-, t, -, rfl⟩ := exists_of_sameDialogWithChecked hbase
  obtain ⟨hdialog, hchecked⟩ := sameDialogWithChecked_iff.mp h
  exact sameDialogWithChecked_iff.mpr ⟨hdialog.trans (sameDialogWithChecked_iff.mp hbase).1, hchecked⟩

theorem sameDialog_of_identity {base : CheckboxModel} (h : multiSelectIdentity m (.checkbox base) = true) :
    sameDialogWithChecked m (.checkbox base) (checkedOf (.checkbox base)) = true := by
  cases m with
  | review => simp [multiSelectIdentity] at h
  | checkbox a =>
    obtain ⟨hsignature, hsteps, hadvance, hrecipe, hquestion, hlabels, hchecked⟩ := multiSelectIdentity_iff.mp h
    refine sameDialogWithChecked_iff.mpr ⟨?_, hchecked⟩
    simp only [dialogOf, hsignature, hsteps, hadvance, hrecipe, hquestion, hlabels]

/-! ### The current base -/

def Key.isToggle : Key → Bool
  | .digit _ | .space => true
  | _ => false

def Key.isSubmit : Key → Bool
  | .enter | .s => true
  | _ => false

section

variable {M : Type}

def RecipeEvent.isSend : RecipeEvent M → Bool
  | .send .. => true
  | _ => false

def RecipeEvent.isSubmit : RecipeEvent M → Bool
  | .send key _ _ => key.isSubmit
  | _ => false

end

/-- The boxes after the next toggle: the first one that differs is flipped. -/
def flipNext : (checked wanted : List Bool) → List Bool
  | c :: checked, w :: wanted => if c = w then c :: flipNext checked wanted else (!c) :: checked
  | checked, _ => checked

/-- The current base, and whether a toggle went out that no read showed yet. -/
structure Watch where
  base : MultiSelectModel
  toggled : Bool

namespace Watch

variable (wanted : List Bool)

def next (w : Watch) : List Bool := flipNext (checkedOf w.base) wanted

/-- The read shows the base, or what our toggle makes of it. -/
def Explains (w : Watch) (m : MultiSelectModel) : Prop :=
  if w.toggled then
    sameDialogWithChecked m w.base (w.next wanted) = true ∨ sameDialogWithChecked m w.base (checkedOf w.base) = true
  else multiSelectIdentity m w.base = true

def step (w : Watch) : RecipeEvent MultiSelectModel → Watch
  | .send key _ .sent => if key.isToggle then { w with toggled := true } else w
  | .read (some (some m)) =>
    if w.toggled && sameDialogWithChecked m w.base (w.next wanted) then ⟨m, false⟩ else w
  | _ => w

end Watch

section

variable (tapped : MultiSelectModel) (wanted : List Bool) (log : List (RecipeEvent MultiSelectModel))

def watch : Watch := log.foldl (Watch.step wanted) ⟨tapped, false⟩

/-- Since the last key a read showed the base, or a toggle of ours in it. -/
def Seen : Prop :=
  ∃ earlier m between, log = earlier ++ .read (some (some m)) :: between ∧
    between.countP (·.isSend) = 0 ∧ (watch tapped wanted earlier).Explains wanted m

/-- The last action read the tapped dialog, still the base, with the wanted boxes. -/
def SubmitSeen : Prop :=
  ∃ earlier m, log = earlier ++ [.read (some (some m))] ∧
    multiSelectIdentity m (watch tapped wanted earlier).base = true ∧
    sameDialogWithChecked m tapped wanted = true ∧ checkedOf m = wanted

/-- How many keys a toggle of one of `n` options takes at most. -/
def toggleBound (n : Nat) : Nat := 2 * n + 5

/-- How many keys an answer takes at most: a toggle for each option, and the submit walk. -/
def keyBound (n : Nat) : Nat := n * toggleBound n + (n + 6)

structure AppliedExactly (log : List (RecipeEvent MultiSelectModel)) : Prop where
  /-- Every key but the first stands on a read of the base since the key before it. -/
  seen : ∀ before key region result after, log = before ++ .send key region result :: after →
    before.countP (·.isSend) = 0 ∨ Seen tapped wanted before
  submitSeen : ∀ before key region result after, log = before ++ .send key region result :: after →
    key.isSubmit = true → SubmitSeen tapped wanted before
  submitLast : ∀ before key region result after, log = before ++ .send key region result :: after →
    key.isSubmit = true → after.countP (·.isSend) = 0
  /-- No key follows a read that shows neither the base nor a toggle of ours in it. -/
  halts : ∀ before m after, log = before ++ .read (some (some m)) :: after →
    ¬ (watch tapped wanted before).Explains wanted m → after.countP (·.isSend) = 0
  keys : log.countP (·.isSend) ≤ keyBound (checkedOf tapped).length

/-! ### The rules as a log grows -/

/-- Every read showed the base or a toggle of ours in it. -/
def Explained : Prop :=
  Logged.Each (fun before e => ∀ m, e = .read (some (some m)) → (watch tapped wanted before).Explains wanted m) log

/-- A key is sent only after reads of the base and before any submit. -/
def KeyAllowed (before : List (RecipeEvent MultiSelectModel)) : RecipeEvent MultiSelectModel → Prop
  | .send key _ _ => (before.countP (·.isSend) = 0 ∨ Seen tapped wanted before) ∧
      (∀ e ∈ before, e.isSubmit = false) ∧ Explained tapped wanted before ∧
      (key.isSubmit = true → SubmitSeen tapped wanted before)
  | _ => True

/-- Nothing forbidden was sent, and so many keys at most. -/
structure Kept (k : Nat) (log : List (RecipeEvent MultiSelectModel)) : Prop where
  allowed : Logged.Each (KeyAllowed tapped wanted) log
  keys : log.countP (·.isSend) ≤ k

/-- The run is still on its dialog, `w` being its base. -/
structure OnBase (w : Watch) (k : Nat) (log : List (RecipeEvent MultiSelectModel)) : Prop
    extends Kept tapped wanted k log where
  watches : watch tapped wanted log = w
  explained : Explained tapped wanted log
  unsubmitted : ∀ e ∈ log, e.isSubmit = false

def Ready : Prop := log.countP (·.isSend) = 0 ∨ Seen tapped wanted log

variable {tapped wanted} {w : Watch} {k : Nat} {log : List (RecipeEvent MultiSelectModel)}

theorem watch_concat (log : List (RecipeEvent MultiSelectModel)) (e : RecipeEvent MultiSelectModel) :
    watch tapped wanted (log ++ [e]) = (watch tapped wanted log).step wanted e := by
  rw [watch, List.foldl_append]
  rfl

variable {k' : Nat}

theorem Kept.mono (h : Kept tapped wanted k log) (hk : k ≤ k') : Kept tapped wanted k' log :=
  ⟨h.allowed, Nat.le_trans h.keys hk⟩

theorem OnBase.mono (h : OnBase tapped wanted w k log) (hk : k ≤ k') : OnBase tapped wanted w k' log :=
  { h with toKept := h.toKept.mono hk }

variable {e : RecipeEvent MultiSelectModel}

theorem Kept.concat (h : Kept tapped wanted k log) (he : e.isSend = false) : Kept tapped wanted k (log ++ [e]) := by
  refine ⟨Logged.each_concat.mpr ⟨h.allowed, ?_⟩, ?_⟩
  · cases e with
    | send => cases he
    | read | sleep => trivial
  · simpa [he] using h.keys

theorem isSubmit_of_isSend (he : e.isSend = false) : e.isSubmit = false := by
  cases e with
  | send => cases he
  | read | sleep => rfl

theorem OnBase.concat (h : OnBase tapped wanted w k log) (he : e.isSend = false)
    (hread : ∀ m, e ≠ .read (some (some m))) :
    OnBase tapped wanted w k (log ++ [e]) where
  toKept := h.toKept.concat he
  watches := by
    rw [watch_concat, h.watches]
    cases e with
    | send => cases he
    | sleep => rfl
    | read answer =>
      match answer with
      | none | some none => rfl
      | some (some m) => exact absurd rfl (hread m)
  explained := Logged.each_concat.mpr ⟨h.explained, fun m hm => absurd hm (hread m)⟩
  unsubmitted e' he' := by
    rcases List.mem_append.mp he' with he' | he'
    · exact h.unsubmitted e' he'
    · rw [List.mem_singleton.mp he']
      exact isSubmit_of_isSend he

theorem OnBase.read {m : MultiSelectModel} (h : OnBase tapped wanted w k log) (hm : w.Explains wanted m) :
    OnBase tapped wanted (w.step wanted (.read (some (some m)))) k (log ++ [.read (some (some m))]) ∧
      Seen tapped wanted (log ++ [.read (some (some m))]) := by
  have hexplains : (watch tapped wanted log).Explains wanted m := h.watches ▸ hm
  refine ⟨⟨h.toKept.concat rfl, ?_, Logged.each_concat.mpr ⟨h.explained, fun m' hm' => ?_⟩, ?_⟩,
    log, m, [], rfl, rfl, hexplains⟩
  · rw [watch_concat, h.watches]
  · cases hm'
    exact hexplains
  · intro e he
    rcases List.mem_append.mp he with he | he
    · exact h.unsubmitted e he
    · rw [List.mem_singleton.mp he]
      rfl

variable {result : RecipeResult}

theorem OnBase.kept_send {key : Key} {region : Option String} (h : OnBase tapped wanted w k log)
    (hready : Ready tapped wanted log) (hsubmit : key.isSubmit = true → SubmitSeen tapped wanted log) :
    Kept tapped wanted (k + 1) (log ++ [.send key region result]) := by
  refine ⟨Logged.each_concat.mpr ⟨h.allowed, hready, h.unsubmitted, h.explained, hsubmit⟩, ?_⟩
  rw [List.countP_append]
  exact Nat.add_le_add h.keys (Nat.le_refl _)

theorem OnBase.send {key : Key} {region : Option String} {result : RecipeResult}
    (h : OnBase tapped wanted w k log) (hready : Ready tapped wanted log) (hkey : key.isSubmit = false) :
    OnBase tapped wanted (w.step wanted (.send key region result)) (k + 1) (log ++ [.send key region result]) where
  toKept := h.kept_send hready fun hsubmit => Bool.noConfusion (hkey.symm.trans hsubmit)
  watches := by rw [watch_concat, h.watches]
  explained := Logged.each_concat.mpr ⟨h.explained, fun _ hm => nomatch hm⟩
  unsubmitted e he := by
    rcases List.mem_append.mp he with he | he
    · exact h.unsubmitted e he
    · rw [List.mem_singleton.mp he]
      exact hkey

/-! ### The loops -/

variable {io : RecipeIO MultiSelectModel}

variable {k : Nat}

theorem onBase_pause {w : Watch} (ms : Nat) : Logged.Triple (OnBase tapped wanted w k) (@pause MultiSelectModel ms)
      fun _ => OnBase tapped wanted w k :=
  Logged.Triple.perform fun _ h => h.concat rfl fun _ hm => nomatch hm

/-- What a walk's final keys are: toggles, or the submit of the wanted boxes. -/
def FinalKeys (tapped : MultiSelectModel) (wanted : List Bool) (base : CheckboxModel) (toggles : Bool)
    (step : Bool → CheckboxModel → WalkStep) : Prop :=
  (∀ moved m key, step moved m = .move key → key.isToggle = false ∧ key.isSubmit = false) ∧
    (∀ moved m key, step moved m = .last key →
      if toggles then key.isToggle = true ∧ key.isSubmit = false else key.isToggle = false) ∧
    (toggles = false → sameDialogWithChecked (.checkbox base) tapped wanted = true)

/-- How a toggle or a submit ends: no more keys, or a toggle that is out. -/
def Pressed (tapped : MultiSelectModel) (wanted : List Bool) (base : CheckboxModel) (toggles : Bool)
    (k : Nat) (result : RecipeResult) (log : List (RecipeEvent MultiSelectModel)) : Prop :=
  Kept tapped wanted k log ∧ (toggles = true → result = .sent → OnBase tapped wanted ⟨.checkbox base, true⟩ k log)

variable {base : CheckboxModel}

theorem Pressed.mono {toggles : Bool} (h : Pressed tapped wanted base toggles k result log) (hk : k ≤ k') :
    Pressed tapped wanted base toggles k' result log :=
  ⟨h.1.mono hk, fun htoggles hsent => (h.2 htoggles hsent).mono hk⟩

section

variable {base : CheckboxModel}

variable {toggles : Bool}

theorem Kept.pressed {result : RecipeResult}
    (h : Kept tapped wanted k log) (hresult : result ≠ .sent) :
    Pressed tapped wanted base toggles k result log :=
  ⟨h, fun _ hsent => absurd hsent hresult⟩

theorem OnBase.pressed {key : Key} {region : Option String}
    {result : RecipeResult} (h : OnBase tapped wanted ⟨.checkbox base, false⟩ k log)
    (hready : Ready tapped wanted log) (htoggle : key.isToggle = true) (hsubmit : key.isSubmit = false) :
    Pressed tapped wanted base toggles (k + 1) result (log ++ [.send key region result]) := by
  have hsend := @OnBase.send _ _ _ _ _ key region result h hready hsubmit
  refine ⟨hsend.toKept, fun _ hsent => ?_⟩
  subst hsent
  simpa [Watch.step, htoggle] using hsend

theorem OnBase.move {key : Key} {region : Option String} {result : RecipeResult}
    (h : OnBase tapped wanted ⟨.checkbox base, false⟩ k log) (hready : Ready tapped wanted log)
    (htoggle : key.isToggle = false) (hsubmit : key.isSubmit = false) :
    OnBase tapped wanted ⟨.checkbox base, false⟩ (k + 1) (log ++ [.send key region result]) := by
  have hsend := @OnBase.send _ _ _ _ _ key region result h hready hsubmit
  cases result <;> simpa [Watch.step, htoggle] using hsend

theorem triple_sendKey {start : List (RecipeEvent MultiSelectModel)} (key : Key) (region : Option String) :
    Logged.Triple (· = start) (io.sendKey key region) fun result log =>
      log = start ++ [.send key region result] :=
  Logged.Triple.perform fun log hlog => by rw [hlog]

theorem walk_pressed {accepts : CheckboxModel → Bool}
    {step : Bool → CheckboxModel → WalkStep} (hstep : FinalKeys tapped wanted base toggles step)
    (left : Nat) (moved : Bool) (bind : Option String) (k : Nat) :
    Logged.Triple (OnBase tapped wanted ⟨.checkbox base, false⟩ k) (walk io base accepts step left moved bind)
      (Pressed tapped wanted base toggles (k + left)) := by
  induction left generalizing moved bind k with
  | zero => exact fun log h => h.toKept.pressed RecipeResult.noConfusion
  | succ left ih =>
    have hagain (moved : Bool) (bind : Option String) (k : Nat) :
        Logged.Triple (OnBase tapped wanted ⟨.checkbox base, false⟩ k)
          (pause NAV_SETTLE_MS >>= fun _ => walk io base accepts step left moved bind)
          (Pressed tapped wanted base toggles (k + left)) :=
      (onBase_pause NAV_SETTLE_MS).bind fun _ => ih moved bind k
    unfold walk
    refine Logged.Triple.of_forall fun start hstart => ?_
    have hread : Logged.Triple (· = start) io.readModel fun answer log => log = start ++ [.read answer] :=
      Logged.Triple.perform fun log hlog => by rw [hlog]
    have hempty {answer : Option (Option MultiSelectModel)} (hnone : ∀ m, answer ≠ some (some m)) :
        OnBase tapped wanted ⟨.checkbox base, false⟩ k (start ++ [.read answer]) :=
      hstart.concat rfl fun m hm => hnone m (RecipeEvent.read.inj hm)
    refine hread.bind fun answer => ?_
    rintro log rfl
    match answer with
    | none => exact (hagain moved bind k _ (hempty (by simp))).mono (by omega)
    | some none =>
      exact (hagain moved bind k _ (hempty (by simp))).mono (by omega)
    | some (some m) =>
      dsimp only
      cases hdialog : onDialog base accepts m with
      | none => exact ((hstart.toKept.concat rfl).mono (by omega)).pressed (by simp)
      | some c =>
        obtain ⟨rfl, hidentity⟩ : m = .checkbox c ∧ multiSelectIdentity m (.checkbox base) = true := by
          cases m with
          | review => cases hdialog
          | checkbox a =>
            simp only [onDialog, Option.ite_none_right_eq_some, Bool.and_eq_true, Option.some.injEq] at hdialog
            obtain ⟨⟨hsame, -⟩, rfl⟩ := hdialog
            exact ⟨rfl, hsame⟩
        have hexplains : (⟨.checkbox base, false⟩ : Watch).Explains wanted (.checkbox c) := hidentity
        obtain ⟨hon, hseen⟩ := hstart.read hexplains
        dsimp only
        cases hnext : step moved c with
        | last key =>
          have hlast := hstep.2.1 moved c key hnext
          refine (triple_sendKey key bind).post (fun result log hlog => ?_) _ rfl
          subst hlog
          cases toggles with
          | true => exact (hon.pressed (.inr hseen) hlast.1 hlast.2).mono (by omega)
          | false =>
            have hbase := hstep.2.2 rfl
            have hsame := sameDialog_trans (sameDialog_of_identity hidentity) hbase
            rw [checkedOf_of_sameDialog hbase] at hsame
            have hsubmit : SubmitSeen tapped wanted (start ++ [.read (some (some (.checkbox c)))]) :=
              ⟨start, .checkbox c, rfl, by rw [hstart.watches]; exact hidentity, hsame,
                checkedOf_of_sameDialog hsame⟩
            exact ⟨(hon.kept_send (.inr hseen) fun _ => hsubmit).mono (by omega), fun hnot => Bool.noConfusion hnot⟩
        | move key =>
          obtain ⟨htoggle, hsubmit⟩ := hstep.1 moved c key hnext
          refine ((triple_sendKey key bind).bind
            (R := Pressed tapped wanted base toggles (k + (left + 1))) fun result => ?_) _ rfl
          rintro log rfl
          have hmoved := @OnBase.move _ _ _ _ _ key bind result hon (.inr hseen) htoggle hsubmit
          split
          · rename_i hnot
            exact (hmoved.toKept.mono (by omega)).pressed hnot
          · exact (hagain true none (k + 1) _ hmoved).mono (by omega)

end

/-- How the poll after a toggle ends: the read it accepts is the next base. -/
def Landed (tapped : MultiSelectModel) (wanted : List Bool) (base : MultiSelectModel)
    (checked : List Bool) (k : Nat) :
    PollOutcome MultiSelectModel → List (RecipeEvent MultiSelectModel) → Prop
  | .ok landed, log => OnBase tapped wanted ⟨landed, false⟩ k log ∧ Seen tapped wanted log ∧
      sameDialogWithChecked landed base checked = true
  | _, log => Kept tapped wanted k log

theorem pollModel_landed {base : MultiSelectModel} {checked : List Bool}
    (hchecked : flipNext (checkedOf base) wanted = checked) (attempts : Nat) (sawDialog : Bool) :
    Logged.Triple (OnBase tapped wanted ⟨base, true⟩ k) (pollModel io (fun m => sameDialogWithChecked m base checked)
        (fun m => sameDialogWithChecked m base (checkedOf base)) attempts sawDialog)
      (Landed tapped wanted base checked k) := by
  subst hchecked
  induction attempts generalizing sawDialog with
  | zero =>
    unfold pollModel
    exact fun log h => by cases sawDialog <;> exact h.toKept
  | succ attempts ih =>
    unfold pollModel
    refine (onBase_pause POLL_DELAY_MS).bind fun _ => Logged.Triple.of_forall fun start hstart => ?_
    have hread : Logged.Triple (· = start) io.readModel fun answer log => log = start ++ [.read answer] :=
      Logged.Triple.perform fun log hlog => by rw [hlog]
    refine hread.bind fun answer => ?_
    rintro log rfl
    match answer with
    | none => exact ih sawDialog _ (hstart.concat rfl (by simp))
    | some none => exact ih sawDialog _ (hstart.concat rfl (by simp))
    | some (some m) =>
      dsimp only
      by_cases haccept : sameDialogWithChecked m base (flipNext (checkedOf base) wanted) = true
      · rw [if_pos haccept]
        have hexplains : (⟨base, true⟩ : Watch).Explains wanted m := .inl haccept
        obtain ⟨hon, hseen⟩ := hstart.read hexplains
        have hstep : (⟨base, true⟩ : Watch).step wanted (.read (some (some m))) = ⟨m, false⟩ := by
          simp [Watch.step, Watch.next, haccept]
        exact ⟨hstep ▸ hon, hseen, haccept⟩
      rw [if_neg haccept]
      by_cases hidentity : sameDialogWithChecked m base (checkedOf base) = true
      · have hexplains : (⟨base, true⟩ : Watch).Explains wanted m := .inr hidentity
        obtain ⟨hon, -⟩ := hstart.read hexplains
        have hstep : (⟨base, true⟩ : Watch).step wanted (.read (some (some m))) = ⟨base, true⟩ := by
          simp [Watch.step, Watch.next, haccept]
        rw [hidentity]
        exact ih true _ (hstep ▸ hon)
      · rw [Bool.not_eq_true] at hidentity
        rw [hidentity]
        exact hstart.toKept.concat rfl

/-! ### Toggles and submits -/

variable {step : Bool → CheckboxModel → WalkStep}

theorem toggle_finalKeys {tapped : MultiSelectModel} {wanted : List Bool}
    (h : ∀ moved m, step moved m = .last .space ∨ ∃ key, step moved m = .move key ∧ key.isToggle = false ∧
      key.isSubmit = false) :
    FinalKeys tapped wanted base true step := by
  refine ⟨fun moved m key hkey => ?_, fun moved m key hkey => ?_, fun hnot => Bool.noConfusion hnot⟩
  · rcases h moved m with hlast | ⟨key', hmove, hquiet⟩
    · cases hlast.symm.trans hkey
    · cases hmove.symm.trans hkey
      exact hquiet
  · rcases h moved m with hlast | ⟨key', hmove, -⟩
    · cases hlast.symm.trans hkey
      exact ⟨rfl, rfl⟩
    · cases hmove.symm.trans hkey

theorem tabSpaceToggleStep_finalKeys (n : Int) : FinalKeys tapped wanted base true (tabSpaceToggleStep n) := by
  refine toggle_finalKeys fun moved m => ?_
  unfold tabSpaceToggleStep
  split
  · exact .inl rfl
  · exact .inr ⟨_, rfl, by split <;> exact ⟨rfl, rfl⟩⟩

theorem cursorToggleStep_finalKeys (n : Int) : FinalKeys tapped wanted base true fun _ => cursorToggleStep n := by
  refine toggle_finalKeys fun moved m => ?_
  unfold cursorToggleStep
  split
  · exact .inr ⟨_, rfl, rfl, rfl⟩
  · split
    · exact .inl rfl
    · exact .inr ⟨_, rfl, by split <;> exact ⟨rfl, rfl⟩⟩

theorem toggleRecipe_pressed (n : Int) (bind : Option String) :
    Logged.Triple (fun log => OnBase tapped wanted ⟨.checkbox base, false⟩ k log ∧ Ready tapped wanted log)
      (toggleRecipe io base n bind)
      (Pressed tapped wanted base true (k + toggleBound base.options.length)) := by
  unfold toggleRecipe toggleBound
  split
  · unfold tabSpaceToggleRecipe
    split
    · rintro log ⟨hon, -⟩
      exact (hon.toKept.mono (by omega)).pressed RecipeResult.noConfusion
    · split
      · refine Logged.Triple.of_forall fun start ⟨hon, hready⟩ => ?_
        refine (triple_sendKey .tab bind).bind fun result => ?_
        rintro log rfl
        have hmoved := @OnBase.move _ _ _ _ _ .tab bind result hon hready rfl rfl
        split
        · rename_i hnot
          exact (hmoved.toKept.mono (by omega)).pressed hnot
        · have hwalk : Logged.Triple (OnBase tapped wanted ⟨.checkbox base, false⟩ (k + 1)) _ _ :=
            (onBase_pause NAV_SETTLE_MS).bind fun _ => @walk_pressed tapped wanted io base true
              (·.recipe == some .tabSpaceEnter) _ (tabSpaceToggleStep_finalKeys n)
              (base.options.length * 2 + 4) false none (k + 1)
          exact (hwalk _ hmoved).mono (by omega)
      · rintro log ⟨hon, -⟩
        exact (walk_pressed (tabSpaceToggleStep_finalKeys n) _ false bind k log hon).mono (by omega)
  · unfold pointerWalkRecipe
    split
    · rintro log ⟨hon, -⟩
      exact (hon.toKept.mono (by omega)).pressed RecipeResult.noConfusion
    · rintro log ⟨hon, -⟩
      exact (walk_pressed (cursorToggleStep_finalKeys n) _ false bind k log hon).mono (by omega)
  · refine Logged.Triple.of_forall fun start ⟨hon, hready⟩ => ?_
    refine (triple_sendKey (.digit n) bind).post fun result log hlog => ?_
    subst hlog
    exact (hon.pressed hready rfl rfl).mono (by omega)

theorem submit_finalKeys (hsame : sameDialogWithChecked (.checkbox base) tapped wanted = true)
    (h : ∀ moved m, (∃ key, step moved m = .last key ∧ key.isToggle = false) ∨ ∃ key, step moved m = .move key ∧
      key.isToggle = false ∧ key.isSubmit = false) :
    FinalKeys tapped wanted base false step := by
  refine ⟨fun moved m key hkey => ?_, fun moved m key hkey => ?_, fun _ => hsame⟩
  · rcases h moved m with ⟨key', hlast, -⟩ | ⟨key', hmove, hquiet⟩
    · cases hlast.symm.trans hkey
    · cases hmove.symm.trans hkey
      exact hquiet
  · rcases h moved m with ⟨key', hlast, hquiet⟩ | ⟨key', hmove, -⟩
    · cases hlast.symm.trans hkey
      exact hquiet
    · cases hmove.symm.trans hkey

theorem submitRecipe_kept (bind : Option String) (hsame : sameDialogWithChecked (.checkbox base) tapped wanted = true) :
    Logged.Triple (OnBase tapped wanted ⟨.checkbox base, false⟩ k) (submitRecipe io base bind)
      fun _ => Kept tapped wanted (k + (base.options.length + 6)) := by
  unfold submitRecipe
  split
  · unfold tabSpaceSubmitRecipe
    split
    · exact fun log h => h.toKept.mono (by omega)
    · have hsteps : FinalKeys tapped wanted base false tabSpaceSubmitStep := by
        refine submit_finalKeys hsame fun moved m => ?_
        unfold tabSpaceSubmitStep
        split
        · exact .inr ⟨_, rfl, rfl, rfl⟩
        · exact .inl ⟨_, rfl, rfl⟩
      exact fun log h => (walk_pressed hsteps _ false bind k log h).1.mono (by omega)
  · unfold pointerWalkRecipe
    split
    · exact fun log h => h.toKept.mono (by omega)
    · have hsteps : FinalKeys tapped wanted base false fun _ => cursorSubmitStep := by
        refine submit_finalKeys hsame fun moved m => ?_
        unfold cursorSubmitStep
        split
        · exact .inr ⟨_, rfl, rfl, rfl⟩
        · exact .inl ⟨_, rfl, rfl⟩
      exact fun log h => (walk_pressed hsteps _ false bind k log h).1.mono (by omega)
  · have hsteps : FinalKeys tapped wanted base false advanceStep := by
      refine submit_finalKeys hsame fun moved m => ?_
      unfold advanceStep
      split
      · exact .inl ⟨_, rfl, rfl⟩
      · exact .inr ⟨_, rfl, by split <;> exact ⟨rfl, rfl⟩⟩
    exact fun log h => (walk_pressed hsteps _ false bind k log h).1.mono (by omega)

/-! ### The whole answer -/

theorem flipNext_append (done : List Bool) {c w : Bool} (hne : c ≠ w) (left rest : List Bool) :
    flipNext (done ++ c :: left) (done ++ w :: rest) = done ++ (!c) :: left := by
  induction done with
  | nil => simp [flipNext, hne]
  | cons d done ih => simp [flipNext, ih]

theorem mapIdx_flip (done : List Bool) (c : Bool) (left : List Bool) :
    (done ++ c :: left).mapIdx (fun j c => if j = done.length then !c else c) = done ++ (!c) :: left := by
  refine List.ext_getElem (by simp) fun j _ _ => ?_
  rw [List.getElem_mapIdx]
  rcases Nat.lt_trichotomy j done.length with hlt | rfl | hgt
  · simp [List.getElem_append_left hlt, Nat.ne_of_lt hlt]
  · simp
  · obtain ⟨d, rfl⟩ : ∃ d, j = done.length + 1 + d := ⟨j - done.length - 1, by omega⟩
    simp [List.getElem_append_right, Nat.add_assoc, Nat.add_comm 1 d]

theorem applyFrom_kept {current : MultiSelectModel} (bind : Option String) {done left rest : List Bool}
    {k : Nat} (hwanted : wanted = done ++ rest) (hboxes : checkedOf current = done ++ left)
    (hleft : left.length = rest.length)
    (hsame : sameDialogWithChecked current tapped (checkedOf current) = true) :
    Logged.Triple (fun log => OnBase tapped wanted ⟨current, false⟩ k log ∧ Ready tapped wanted log)
      (applyFrom io current bind done.length rest)
      fun _ => Kept tapped wanted (k + (rest.length * toggleBound wanted.length + (wanted.length + 6))) := by
  obtain ⟨model, -, rfl, -⟩ := exists_of_sameDialogWithChecked hsame
  have hoptions : model.options.length = wanted.length := by
    have hlength := congrArg List.length hboxes
    simp only [checkedOf, List.length_map, List.length_append] at hlength
    rw [hwanted, List.length_append, hlength, hleft]
  induction rest generalizing model bind done left k with
  | nil =>
    obtain rfl : left = [] := List.eq_nil_of_length_eq_zero hleft
    rw [List.append_nil] at hwanted hboxes
    subst hwanted
    rw [hboxes] at hsame
    unfold applyFrom
    refine ((submitRecipe_kept bind hsame).pre fun log h => h.1).post fun _ log h => h.mono ?_
    simp [hoptions]
  | cons w rest ih =>
    obtain ⟨c, left, rfl⟩ : ∃ c left', left = c :: left' := by
      cases left with
      | nil => simp at hleft
      | cons c left => exact ⟨c, left, rfl⟩
    have hchecked : (model.options.map (·.checked))[done.length]? = some c := by
      change (checkedOf (.checkbox model))[done.length]? = some c
      rw [hboxes]
      simp
    obtain ⟨option, hoption, rfl⟩ : ∃ option, model.options[done.length]? = some option ∧ option.checked = c := by
      simpa using hchecked
    unfold applyFrom
    simp only [hoption]
    split
    · rename_i hagree
      have hnext := @ih bind (done ++ [w]) left k (by simpa using hwanted) (by simpa using hleft) model
        (by simpa [hagree] using hboxes) hsame hoptions
      rw [List.length_append] at hnext
      refine hnext.post fun _ log h => h.mono ?_
      rw [List.length_cons, Nat.add_mul]
      omega
    · rename_i hdiffer
      have hflip : flipNext (checkedOf (.checkbox model)) wanted = done ++ (!option.checked) :: left := by
        rw [hboxes, hwanted]
        exact flipNext_append done hdiffer left rest
      have hexpected : (checkedOf (.checkbox model)).mapIdx
          (fun j c => if j = done.length then !c else c) = done ++ (!option.checked) :: left := by
        rw [hboxes]
        exact mapIdx_flip done _ left
      refine (toggleRecipe_pressed option.n bind).bind fun result => ?_
      rintro log ⟨hkept, hout⟩
      have hbound : k + toggleBound model.options.length + rest.length * toggleBound wanted.length +
          (wanted.length + 6) = k + ((w :: rest).length * toggleBound wanted.length +
            (wanted.length + 6)) := by
        rw [hoptions, List.length_cons, Nat.add_mul]
        omega
      split
      · exact hkept.mono (by omega)
      · rename_i hsent
        have hon := hout rfl (by simpa using hsent)
        refine ((pollModel_landed (hflip.trans hexpected.symm) POLL_ATTEMPTS false).bind
          (R := fun _ => Kept tapped wanted _) fun outcome => ?_) log hon
        rintro log hlanded
        cases outcome with
        | drifted | timeout => exact Kept.mono hlanded (by omega)
        | ok landed =>
          obtain ⟨honLanded, hseen, hsameLanded⟩ := hlanded
          rw [hexpected] at hsameLanded
          obtain ⟨next, -, rfl, -⟩ := exists_of_sameDialogWithChecked hsameLanded
          have hflipped : (!option.checked) = w := by
            cases hc : option.checked <;> cases w <;> simp_all
          have hnextBoxes := checkedOf_of_sameDialog hsameLanded
          have hnextOptions : next.options.length = wanted.length := by
            have hlength := congrArg List.length hnextBoxes
            simp only [checkedOf, List.length_map, List.length_append, List.length_cons] at hlength
            simp only [hlength, hwanted, List.length_append, List.length_cons]
            simpa using hleft
          have hnext := @ih none (done ++ [w]) left (k + toggleBound model.options.length)
            (by simpa using hwanted) (by simpa using hleft) next (by simpa [hflipped] using hnextBoxes)
            (by rw [hnextBoxes]; exact sameDialog_trans hsameLanded hsame) hnextOptions log
            ⟨honLanded, .inr hseen⟩
          rw [List.length_append] at hnext
          exact hnext.mono (by rw [hoptions] at *; omega)

theorem no_send_after {before after : List (RecipeEvent MultiSelectModel)} (hlog : log = before ++ e :: after)
    (hallowed : Logged.Each (KeyAllowed tapped wanted) log)
    (hnot : ∀ mid key region result, ¬ KeyAllowed tapped wanted (before ++ e :: mid) (.send key region result)) :
    after.countP (·.isSend) = 0 := by
  refine List.countP_eq_zero.mpr fun e' he' hsend => ?_
  obtain ⟨mid, rest, rfl⟩ := List.append_of_mem he'
  cases e' with
  | send key region result =>
    exact hnot mid key region result (hallowed _ _ rest (by rw [hlog]; simp))
  | read | sleep => cases hsend

theorem Kept.exact (h : Kept tapped wanted (keyBound (checkedOf tapped).length) log) :
    AppliedExactly tapped wanted log where
  seen before key region result after hlog := (h.allowed before _ after hlog).1
  submitSeen before key region result after hlog := (h.allowed before _ after hlog).2.2.2
  submitLast before key region result after hlog hsubmit := by
    refine no_send_after hlog h.allowed fun mid key' region' result' hsend => ?_
    cases (hsend.2.1 (.send key region result) (by simp)).symm.trans hsubmit
  halts before m after hlog hunexplained := by
    refine no_send_after hlog h.allowed fun mid key region result hsend => hunexplained ?_
    exact hsend.2.2.1 before _ mid rfl m rfl
  keys := h.keys

end

/-- Whatever the reads and the writes come to: an answer to a checkbox dialog sends each key but the first
on a read of the current base, submits once at most and on a read of the tapped dialog with the wanted
boxes, sends no key after a read of anything else, and so many keys at most. -/
theorem multiSelectApplyRecipe_exact (io : RecipeIO MultiSelectModel) (tapped : CheckboxModel)
    (wanted : List Bool) (region : Option String) :
    AppliedExactly (.checkbox tapped) wanted (multiSelectApplyRecipe io (.checkbox tapped) wanted region []).2 := by
  have hstart : OnBase (.checkbox tapped) wanted ⟨.checkbox tapped, false⟩ 0 [] :=
    ⟨⟨Logged.each_nil, Nat.le_refl _⟩, rfl, Logged.each_nil, fun _ he => nomatch he⟩
  refine Kept.exact ?_
  unfold multiSelectApplyRecipe
  dsimp only
  split
  · exact hstart.toKept.mono (Nat.zero_le _)
  · rename_i hlength
    have hlength : wanted.length = tapped.options.length := not_not.mp hlength
    have happly := @applyFrom_kept (.checkbox tapped) wanted io (.checkbox tapped) region []
      (checkedOf (.checkbox tapped)) wanted 0 rfl rfl (by simp [checkedOf, hlength]) (sameDialog_refl tapped)
    refine (happly [] ⟨hstart, .inl rfl⟩).mono ?_
    simp [keyBound, checkedOf, hlength]

end Sightr
