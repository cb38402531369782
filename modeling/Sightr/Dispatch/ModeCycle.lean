import Sightr.Dispatch.Handlers

/-!
# The permission-mode cycle

`cycle` of `bridge/threads/live-modes.ts`: read the footer, press the cycle key and read again, until the
footer shows the wanted mode. The pane answers reads and key writes one after another as it likes, so a
run meets every order of modes, every dialog and every failure.
-/

namespace Sightr

open World (CycleResult BYPASS_MODE)

def MAX_PRESSES : Nat := 6

/-- How long the footer gets to repaint after a press before the re-read. -/
def MODE_SETTLE_MS : Nat := 250

/-- A composer kit with what it says of permission modes. -/
structure ModeKit (Lines : Type) extends ComposerKit Lines where
  permissionModeOf : Option (Lines → Option String) := none
  defaultModeId : Option String := none

/-- One pane inside its turn: its kit, and what its reads and key writes come to, each in order. A read is
none and a key write false when it throws. -/
structure PaneSession (Lines : Type) where
  kit : Option (ModeKit Lines)
  read : Nat → Option Lines
  sendKey : Nat → Bool

inductive ModeEvent (Lines : Type)
  | read (lines : Option Lines)
  | press (sent : Bool)
  | sleep (ms : Nat)
  deriving DecidableEq

section

variable {Lines : Type}

def ModeEvent.isRead : ModeEvent Lines → Bool
  | .read _ => true
  | _ => false

def ModeEvent.isPress : ModeEvent Lines → Bool
  | .press _ => true
  | _ => false

variable (pane : PaneSession Lines)

/-- The mode a footer read shows, with the kit's default for a footer that prints none. -/
def modeOn (lines : Lines) : Option String := do
  let kit ← pane.kit
  let permissionModeOf ← kit.permissionModeOf
  permissionModeOf lines <|> kit.defaultModeId

/-- A kit that cannot tell whether its composer is up never gets a key from here. -/
def composerShown (lines : Lines) : Bool := pane.kit.any fun kit => kit.composerReady.any fun ready => ready lines

def readPane : Logged (ModeEvent Lines) (Option Lines) :=
  Logged.perform (fun log => pane.read (log.countP (·.isRead))) .read

def pressCycleKey : Logged (ModeEvent Lines) Bool :=
  Logged.perform (fun log => pane.sendKey (log.countP (·.isPress))) .press

def settle (ms : Nat) : Logged (ModeEvent Lines) Unit := Logged.perform (fun _ => ()) fun _ => .sleep ms

/-- The loop with `presses` keys out and `left` more allowed; none when a read throws. -/
def cycleFrom (want : String) (presses left : Nat) (shown : String) :
    Logged (ModeEvent Lines) (Option CycleResult) :=
  if shown = want then pure (some (.reached presses))
  -- Never press past bypass on the way to another mode.
  else if shown = BYPASS_MODE then pure (some (.stopped "bypass-reached" presses (some shown)))
  else match left with
    | 0 => pure (some (.stopped "mode-not-reached" presses (some shown)))
    | left + 1 => do
      let sent ← pressCycleKey pane
      if !sent then pure (some (.keyFailed presses))
      else do
        settle MODE_SETTLE_MS
        match ← readPane pane with
        | none => pure none
        | some lines =>
          -- A dialog came up: stop before the next key could land in it.
          if !composerShown pane lines then pure (some (.stopped "blocked" (presses + 1) none))
          else match modeOn pane lines with
            | none => pure (some (.stopped "unknown-mode" (presses + 1) none))
            | some next => cycleFrom want (presses + 1) left next

variable (want : String)

/-- Read, press, re-read until the footer shows `want`. -/
def cycle : Logged (ModeEvent Lines) (Option CycleResult) :=
  if (pane.kit.bind (·.permissionModeOf)).isNone then pure (some (.refused "unsupported"))
  else do
    match ← readPane pane with
    | none => pure none
    | some lines =>
      if !composerShown pane lines then pure (some (.refused "blocked"))
      else match modeOn pane lines with
        | none => pure (some (.refused "unknown-mode"))
        | some shown => cycleFrom pane want 0 MAX_PRESSES shown

/-! ### The rule of a switch -/

/-- The screen shows the composer, in a mode that is neither bypass nor the target: the next press may
leave it. -/
def MayLeave (lines : Lines) : Prop :=
  composerShown pane lines = true ∧ ∃ shown, modeOn pane lines = some shown ∧ shown ≠ BYPASS_MODE ∧ shown ≠ want

/-- A press stands on a read of such a screen with no press between. -/
def PressAllowed (before : List (ModeEvent Lines)) : ModeEvent Lines → Prop
  | .press _ => ∃ earlier lines between, before = earlier ++ .read (some lines) :: between ∧
      between.countP (·.isPress) = 0 ∧ MayLeave pane want lines
  | _ => True

def readAnswer : ModeEvent Lines → Option Lines
  | .read lines => lines
  | _ => none

variable (log : List (ModeEvent Lines))

def lastRead : Option Lines := (log.filterMap readAnswer).getLast?

def EndsInBypass : Prop := ∃ lines, lastRead log = some lines ∧ modeOn pane lines = some BYPASS_MODE

structure ModeGuarded (want : String) (result : Option CycleResult) (log : List (ModeEvent Lines)) : Prop where
  few : log.countP (·.isPress) ≤ MAX_PRESSES
  seen : Logged.Each (PressAllowed pane want) log
  /-- Seen in bypass with its composer, the pane is left there and that is reported. -/
  reported : ∀ lines, lastRead log = some lines → modeOn pane lines = some BYPASS_MODE →
    composerShown pane lines = true →
      result = some (.stopped "bypass-reached" (log.countP (·.isPress)) (some BYPASS_MODE))

/-- The pane goes past its read `k`: it shows a screen that a press may leave, and the press goes out. -/
def GoesPast (k : Nat) : Prop :=
  (∃ lines, pane.read k = some lines ∧ MayLeave pane want lines) ∧ pane.sendKey k = true

/-- A press made on the way to the target lands the pane in bypass. -/
def BypassBetween : Prop :=
  ∃ k ≤ MAX_PRESSES, (∀ j < k, GoesPast pane want j) ∧
    ∃ lines, pane.read k = some lines ∧ modeOn pane lines = some BYPASS_MODE

variable {pane} {want : String}

theorem lastRead_concat_read (answer : Option Lines) :
    lastRead (log ++ [.read answer]) = answer.or (lastRead log) := by
  cases answer <;> simp [lastRead, readAnswer]

theorem lastRead_concat_press (sent : Bool) : lastRead (log ++ [.press sent]) = lastRead log := by
  simp [lastRead, readAnswer]

theorem lastRead_concat_sleep (ms : Nat) : lastRead (log ++ [.sleep ms]) = lastRead log := by
  simp [lastRead, readAnswer]

/-! ### One run of the loop -/

/-- The log when the loop looks at its read `k`, which showed the composer in mode `shown`. -/
structure AtRead (pane : PaneSession Lines) (want : String) (k : Nat) (shown : String)
    (log : List (ModeEvent Lines)) : Prop where
  past : ∀ j < k, GoesPast pane want j
  seen : Logged.Each (PressAllowed pane want) log
  reads : log.countP (·.isRead) = k + 1
  presses : log.countP (·.isPress) = k
  last : ∃ earlier lines, log = earlier ++ [.read (some lines)] ∧ pane.read k = some lines ∧
    composerShown pane lines = true ∧ modeOn pane lines = some shown

/-- How a run may end: after its read `k`, which the pane does not go past. -/
structure Ended (pane : PaneSession Lines) (want : String) (result : Option CycleResult)
    (log : List (ModeEvent Lines)) : Prop where
  guarded : ModeGuarded pane want result log
  last : ∃ k ≤ MAX_PRESSES, (∀ j < k, GoesPast pane want j) ∧ (k = MAX_PRESSES ∨ ¬ GoesPast pane want k) ∧
    (EndsInBypass pane log ↔ ∃ lines, pane.read k = some lines ∧ modeOn pane lines = some BYPASS_MODE)

variable {k : Nat} {shown : String} {log : List (ModeEvent Lines)} {result : Option CycleResult}

private theorem AtRead.ended (h : AtRead pane want k shown log) (hk : k ≤ MAX_PRESSES)
    (hstop : k = MAX_PRESSES ∨ shown = want ∨ shown = BYPASS_MODE)
    (hresult : shown = BYPASS_MODE → result = some (.stopped "bypass-reached" k (some shown))) :
    Ended pane want result log := by
  obtain ⟨earlier, lines, rfl, hread, -, hmode⟩ := h.last
  refine ⟨⟨h.presses.le.trans hk, h.seen, fun lines' hlines' hbypass _ => ?_⟩, k, hk, h.past, ?_, ?_⟩
  · rw [lastRead_concat_read, Option.some_or] at hlines'
    cases hlines'
    obtain rfl := Option.some.inj (hmode.symm.trans hbypass)
    rw [h.presses]
    exact hresult rfl
  · refine hstop.imp_right fun hshown => ?_
    rintro ⟨⟨lines', hread', -, shown', hmode', hbypass, hwant⟩, -⟩
    obtain rfl := Option.some.inj (hread.symm.trans hread')
    obtain rfl := Option.some.inj (hmode.symm.trans hmode')
    exact hshown.elim hwant hbypass
  · rw [EndsInBypass, lastRead_concat_read, Option.some_or, hread]

theorem AtRead.mayLeave (h : AtRead pane want k shown log) (hwant : shown ≠ want) (hbypass : shown ≠ BYPASS_MODE) :
    ∃ earlier lines, log = earlier ++ [.read (some lines)] ∧ pane.read k = some lines ∧
      MayLeave pane want lines := by
  obtain ⟨earlier, lines, hlog, hread, hshown, hmode⟩ := h.last
  exact ⟨earlier, lines, hlog, hread, hshown, shown, hmode, hbypass, hwant⟩

private theorem AtRead.again {start : List (ModeEvent Lines)} (h : AtRead pane want k shown start)
    (hwant : shown ≠ want) (hbypass : shown ≠ BYPASS_MODE) (hkey : pane.sendKey k = true) {ms : Nat}
    (hlog : log = start ++ [.press true] ++ [.sleep ms]) :
    (∀ j < k + 1, GoesPast pane want j) ∧ Logged.Each (PressAllowed pane want) log ∧
      log.countP (·.isRead) = k + 1 ∧ log.countP (·.isPress) = k + 1 ∧
      ∃ lines, lastRead log = some lines ∧ MayLeave pane want lines := by
  obtain ⟨earlier, lines, hstart, hread, hmay⟩ := h.mayLeave hwant hbypass
  have hpress : PressAllowed pane want start (.press true) := ⟨earlier, lines, [], hstart, rfl, hmay⟩
  subst hlog
  refine ⟨fun j hj => ?_, ?_, ?_, ?_, lines, ?_, hmay⟩
  · rcases Nat.lt_succ_iff_lt_or_eq.mp hj with hj | rfl
    · exact h.past j hj
    · exact ⟨⟨lines, hread, hmay⟩, hkey⟩
  · exact Logged.each_concat.mpr ⟨Logged.each_concat.mpr ⟨h.seen, hpress⟩, trivial⟩
  · rw [List.countP_append, List.countP_append, h.reads]
    rfl
  · rw [List.countP_append, List.countP_append, h.presses]
    rfl
  · rw [lastRead_concat_sleep, lastRead_concat_press, hstart, lastRead_concat_read, Option.some_or]

theorem ModeGuarded.of_mayLeave {lines : Lines} (hfew : log.countP (·.isPress) ≤ MAX_PRESSES)
    (hseen : Logged.Each (PressAllowed pane want) log) (hlast : lastRead log = some lines)
    (hmay : MayLeave pane want lines) : ModeGuarded pane want result log ∧ ¬ EndsInBypass pane log := by
  obtain ⟨-, shown, hshown, hnot, -⟩ := hmay
  have hsafe {lines' : Lines} (hlines' : lastRead log = some lines') : modeOn pane lines' ≠ some BYPASS_MODE := by
    obtain rfl := Option.some.inj (hlast.symm.trans hlines')
    exact fun hbypass => hnot (Option.some.inj (hshown.symm.trans hbypass))
  exact ⟨⟨hfew, hseen, fun lines' hlines' hbypass _ => absurd hbypass (hsafe hlines')⟩,
    fun ⟨lines', hlines', hbypass⟩ => hsafe hlines' hbypass⟩

theorem cycleFrom_ended (hwant : want ≠ BYPASS_MODE) {left : Nat} (hleft : k + left = MAX_PRESSES) (shown : String) :
    Logged.Triple (AtRead pane want k shown) (cycleFrom pane want k left shown) (Ended pane want) := by
  induction left generalizing k shown with
  | zero =>
    have hk : k = MAX_PRESSES := hleft
    unfold cycleFrom
    split
    · rename_i hreached
      exact fun log h => h.ended hk.le (.inl hk) fun hbypass => absurd (hreached.symm.trans hbypass) hwant
    split
    · rename_i hbypass
      exact fun log h => h.ended hk.le (.inl hk) fun _ => rfl
    · rename_i hbypass
      exact fun log h => h.ended hk.le (.inl hk) fun hshown => absurd hshown hbypass
  | succ left ih =>
    have hk : k + 1 ≤ MAX_PRESSES := by omega
    unfold cycleFrom
    split
    · rename_i hreached
      exact fun log h => h.ended (Nat.le_of_succ_le hk) (.inr (.inl hreached)) fun hbypass =>
        absurd (hreached.symm.trans hbypass) hwant
    split
    · rename_i hbypass
      exact fun log h => h.ended (Nat.le_of_succ_le hk) (.inr (.inr hbypass)) fun _ => rfl
    rename_i hreached hbypass
    refine Logged.Triple.of_forall fun start hstart => ?_
    have hpress : Logged.Triple (· = start) (pressCycleKey pane) fun sent log =>
        sent = pane.sendKey k ∧ log = start ++ [.press sent] :=
      Logged.Triple.perform fun log hlog => ⟨by rw [hlog, hstart.presses], by rw [hlog]⟩
    refine hpress.bind fun sent => Logged.Triple.of_pure fun hsent => ?_
    cases sent with
    | false =>
      obtain ⟨earlier, lines, hlog, hread, hmay⟩ := hstart.mayLeave hreached hbypass
      refine Logged.Triple.pure fun log hend => ?_
      subst hend
      have hfew : (start ++ [ModeEvent.press false]).countP ModeEvent.isPress ≤ MAX_PRESSES := by
        rw [List.countP_append, hstart.presses]
        exact hk
      have hallowed : PressAllowed pane want start (.press false) := ⟨earlier, lines, [], hlog, rfl, hmay⟩
      have hlast : lastRead (start ++ [ModeEvent.press false]) = some lines := by
        rw [lastRead_concat_press, hlog, lastRead_concat_read, Option.some_or]
      obtain ⟨hguarded, -⟩ := ModeGuarded.of_mayLeave hfew (Logged.each_concat.mpr ⟨hstart.seen, hallowed⟩) hlast hmay
      refine ⟨hguarded, k, Nat.le_of_succ_le hk, hstart.past, .inr fun hpast => ?_, ?_⟩
      · cases hsent.trans hpast.2
      · rw [EndsInBypass, hlast, hread]
    | true =>
      have hsettle : Logged.Triple (· = start ++ [.press true]) (@settle Lines MODE_SETTLE_MS)
          fun _ log => log = start ++ [.press true] ++ [.sleep MODE_SETTLE_MS] :=
        Logged.Triple.perform fun log hlog => by rw [hlog]
      refine hsettle.bind fun _ => Logged.Triple.of_forall fun mid hmid => ?_
      obtain ⟨hpast, hseen, hreads, hpresses, before, hbefore, hmay⟩ :=
        hstart.again hreached hbypass hsent.symm hmid
      have hread : Logged.Triple (· = mid) (readPane pane) fun answer log =>
          answer = pane.read (k + 1) ∧ log = mid ++ [.read answer] :=
        Logged.Triple.perform fun log hlog => ⟨by rw [hlog, hreads], by rw [hlog]⟩
      refine hread.bind fun answer => Logged.Triple.of_pure fun hanswer => ?_
      have hfew : (mid ++ [ModeEvent.read answer]).countP ModeEvent.isPress = k + 1 := by
        rw [List.countP_append, hpresses]
        rfl
      have heach : Logged.Each (PressAllowed pane want) (mid ++ [.read answer]) :=
        Logged.each_concat.mpr ⟨hseen, trivial⟩
      cases answer with
      | none =>
        have hlast : lastRead (mid ++ [.read none]) = some before := by
          rw [lastRead_concat_read, Option.none_or, hbefore]
        refine Logged.Triple.pure fun log hlog => ?_
        subst hlog
        obtain ⟨hguarded, hsafe⟩ := ModeGuarded.of_mayLeave (hfew.le.trans hk) heach hlast hmay
        refine ⟨hguarded, k + 1, hk, hpast, .inr ?_, iff_of_false hsafe ?_⟩
        · rintro ⟨⟨lines, hlines, -⟩, -⟩
          cases hanswer.trans hlines
        · rintro ⟨lines, hlines, -⟩
          cases hanswer.trans hlines
      | some lines =>
        have hlast : lastRead (mid ++ [.read (some lines)]) = some lines := by
          rw [lastRead_concat_read, Option.some_or]
        -- Where the screen hides the composer or the mode, the loop ends on it.
        have hend (result : Option CycleResult)
            (hstop : composerShown pane lines = false ∨ modeOn pane lines = none) :
            Ended pane want result (mid ++ [.read (some lines)]) := by
          refine ⟨⟨hfew.le.trans hk, heach, fun lines' hlines' hbypass' hshown => ?_⟩, k + 1, hk, hpast,
            .inr ?_, by rw [EndsInBypass, hlast, hanswer]⟩
          · obtain rfl := Option.some.inj (hlast.symm.trans hlines')
            simp [hshown, hbypass'] at hstop
          · rintro ⟨⟨lines', hlines', hshown, shown', hmode, -⟩, -⟩
            obtain rfl := Option.some.inj (hanswer.trans hlines')
            simp [hshown, hmode] at hstop
        dsimp only
        split
        · rename_i hhidden
          refine Logged.Triple.pure fun log hlog => ?_
          rw [hlog]
          exact hend _ (.inl (by simpa using hhidden))
        · rename_i hshown
          split
          · rename_i hmode
            refine Logged.Triple.pure fun log hlog => ?_
            rw [hlog]
            exact hend _ (.inr hmode)
          · rename_i next hmode
            refine (ih (by omega) next).pre fun log hlog => ?_
            subst hlog
            refine ⟨hpast, heach, ?_, hfew, mid, lines, rfl, hanswer.symm, by simpa using hshown, hmode⟩
            rw [List.countP_append, hreads]
            rfl

theorem cycle_ended (hwant : want ≠ BYPASS_MODE) {first : Lines} (hfirst : pane.read 0 = some first)
    {start : String} (hmode : modeOn pane first = some start) (hstart : start ≠ BYPASS_MODE) :
    Ended pane want (cycle pane want []).1 (cycle pane want []).2 := by
  have hcycle : Logged.Triple (· = []) (cycle pane want) (Ended pane want) := by
    unfold cycle
    split
    · rename_i hnone
      cases hkit : pane.kit with
      | none => simp [modeOn, hkit] at hmode
      | some kit => simp_all [modeOn]
    have hread : Logged.Triple (· = []) (readPane pane) fun answer log =>
        answer = some first ∧ log = [.read (some first)] :=
      Logged.Triple.perform fun log hlog => by
        subst hlog
        exact ⟨hfirst, congrArg (fun answer => [ModeEvent.read answer]) hfirst⟩
    refine hread.bind fun answer => Logged.Triple.of_pure fun hanswer => ?_
    subst hanswer
    have heach : Logged.Each (PressAllowed pane want) [.read (some first)] :=
      Logged.each_concat.mpr ⟨Logged.each_nil, trivial⟩
    dsimp only
    split
    · rename_i hhidden
      refine Logged.Triple.pure fun log hlog => ?_
      subst hlog
      refine ⟨⟨Nat.zero_le _, heach, fun lines hlines hbypass _ => ?_⟩, 0, Nat.zero_le _,
        fun j hj => absurd hj (Nat.not_lt_zero j), .inr ?_, by rw [hfirst]; rfl⟩
      · cases hlines
        exact absurd (Option.some.inj (hmode.symm.trans hbypass)) hstart
      · rintro ⟨⟨lines, hlines, hleave⟩, -⟩
        obtain rfl := Option.some.inj (hfirst.symm.trans hlines)
        simp [hleave.1] at hhidden
    · rename_i hshown
      rw [hmode]
      refine (cycleFrom_ended hwant (Nat.zero_add _) start).pre fun log hlog => ?_
      subst hlog
      exact ⟨fun j hj => absurd hj (Nat.not_lt_zero j), heach, rfl, rfl, [], first, rfl, hfirst,
        by simpa using hshown, hmode⟩
  exact hcycle [] rfl

theorem Ended.endsInBypass_iff (h : Ended pane want result log) :
    EndsInBypass pane log ↔ BypassBetween pane want := by
  obtain ⟨k, hk, hpast, hstop, hlast⟩ := h.last
  refine hlast.trans ⟨fun hread => ⟨k, hk, hpast, hread⟩, ?_⟩
  rintro ⟨k', hk', hpast', lines, hread, hbypass⟩
  -- The pane goes past no screen in bypass, so the run ended on this one.
  have hnot : ¬ GoesPast pane want k' := by
    rintro ⟨⟨lines', hread', -, shown, hshown, hsafe, -⟩, -⟩
    obtain rfl := Option.some.inj (hread.symm.trans hread')
    exact hsafe (Option.some.inj (hshown.symm.trans hbypass))
  have hsame : k' = k := by
    rcases Nat.lt_trichotomy k' k with hlt | hsame | hgt
    · exact absurd (hpast k' hlt) hnot
    · exact hsame
    · rcases hstop with rfl | hstop
      · exact absurd hgt (Nat.not_lt.mpr hk')
      · exact absurd (hpast' k hgt) hstop
  subst hsame
  exact ⟨lines, hread, hbypass⟩

/-- For every target but bypass and every pane whose first read shows a mode other than bypass: the loop
presses a bounded number of times, each on a read of the composer in a mode other than bypass and the
target; its last read shows bypass exactly when a press on the way lands there, and then it stops and says
so. -/
theorem cycle_guarded (pane : PaneSession Lines) (want start : String) (hwant : want ≠ BYPASS_MODE)
    (hshows : (pane.read 0).bind (modeOn pane) = some start) (hstart : start ≠ BYPASS_MODE) :
    ModeGuarded pane want (cycle pane want []).1 (cycle pane want []).2 ∧
      (EndsInBypass pane (cycle pane want []).2 ↔ BypassBetween pane want) := by
  obtain ⟨first, hfirst, hmode⟩ := Option.bind_eq_some_iff.mp hshows
  have hended := cycle_ended hwant hfirst hmode hstart
  exact ⟨hended.guarded, hended.endsInBypass_iff⟩

end

/-! ### A harness with bypass in its cycle -/

def footerKit : ModeKit String where
  extractInputDraft _ := none
  composerReady := some fun _ => true
  permissionModeOf := some some

/-- A pane that goes through the modes in order, and every key reaches it. -/
def footerPane (modes : List String) : PaneSession String where
  kit := some footerKit
  read k := modes[k]?
  sendKey _ := true

/-- Plan mode, two presses from manual. -/
theorem cycle_guarded_toPlan : ModeGuarded (footerPane ["manual", "acceptEdits", "plan"]) "plan"
        (cycle (footerPane ["manual", "acceptEdits", "plan"]) "plan" []).1
        (cycle (footerPane ["manual", "acceptEdits", "plan"]) "plan" []).2 ∧
      (EndsInBypass (footerPane ["manual", "acceptEdits", "plan"])
          (cycle (footerPane ["manual", "acceptEdits", "plan"]) "plan" []).2 ↔
        BypassBetween (footerPane ["manual", "acceptEdits", "plan"]) "plan") :=
  cycle_guarded (footerPane ["manual", "acceptEdits", "plan"]) "plan" "manual" (by decide) rfl (by decide)

/-- Where bypass comes before plan mode, a switch from manual to plan ends with the pane in bypass. -/
theorem cycle_ends_in_bypass : ∃ pane : PaneSession String, (pane.read 0).bind (modeOn pane) = some "manual" ∧
      "manual" ≠ BYPASS_MODE ∧ "plan" ≠ BYPASS_MODE ∧ EndsInBypass pane (cycle pane "plan" []).2 :=
  ⟨footerPane ["manual", "bypassPermissions", "plan"], rfl, by decide, by decide, BYPASS_MODE,
    by decide, by decide⟩

end Sightr
