import Sightr.Send.Guarded

/-!
# What a guarded send owes the composer

Four ways lead to the typing of a text: a read that saw the composer, a forced send past one that did
not, a read that threw, and a kit without a reader. The caller's own keys go out on the first of them
only. A run reads and writes a bounded number of times.
-/

namespace Sightr

/-! ### The rules -/

def SendEvent.isRead : SendEvent → Bool
  | .read _ => true
  | _ => false

def SendEvent.isComposerSeen : SendEvent → Bool
  | .composerSeen _ => true
  | _ => false

section

variable {Lines : Type} (engine : Engine Lines) (kit : ComposerKit Lines) (io : GuardedSendIo)
  (args : GuardedSendArgs)

def showsComposer (screen : String) : Bool := kit.composerReady.any fun ready => ready (engine.parseLines screen)

/-- The screen shows a composer that keys cannot be bound to. -/
def showsUnbindable (screen : String) : Bool :=
  (kit.unbindableComposer.bind fun unbindable => unbindable (engine.parseLines screen)).isSome

/-- The caller's work sends keys when it runs on this log. -/
def KeysSent (seen : ComposerSeen) (log : List SendEvent) : Prop :=
  ∃ onComposerSeen, args.onComposerSeen = some onComposerSeen ∧ onComposerSeen seen log = .ok true

/-- How many times it reads around its presses: a first look and a poll for each, and one wait for all
of them. -/
def pressReads : Nat :=
  let step := max io.pollDelayMs SUBMIT_HELD_STEP_MS
  MAX_HELD_PRESSES + MAX_HELD_PRESSES * io.pollAttempts + (SUBMIT_HELD_WAIT_MS + step - 1) / step

/-- How many times a send reads at most: the pre-flight, the read after the caller's keys, the
verification, and the presses. -/
def readBound : Nat := 2 + (io.pollAttempts + pressReads io)

/-- How many times a send writes at most: the caller's work, the text, and the presses. -/
def writeBound : Nat := 2 + MAX_HELD_PRESSES

structure ComposerGuarded (log : List SendEvent) : Prop where
  seenOnce : log.countP (·.isComposerSeen) ≤ 1
  /-- It runs right after a read that showed a composer its keys can be bound to. -/
  seenOn : ∀ before seen after, log = before ++ .composerSeen seen :: after →
    ∃ earlier screen, before = earlier ++ [.read (some screen)] ∧
      showsComposer engine kit screen = true ∧ showsUnbindable engine kit screen = false
  typedOnce : log.countP (·.isType) ≤ 1
  /-- It is not typed once the pre-flight read a screen without the composer, unless forced. -/
  typedForced : ∀ screen rest, log = .read (some screen) :: rest → kit.composerReady.isSome = true →
    showsComposer engine kit screen = false → args.force = false → rest.countP (·.isType) = 0
  /-- After the caller's keys it is typed only if one more read showed the composer, or threw. -/
  reconfirmed : ∀ before seen between text paste after,
    log = before ++ .composerSeen seen :: (between ++ .type text paste :: after) →
      KeysSent args seen before → ∃ answer, between = [.read answer] ∧
        ∀ screen ∈ answer, showsComposer engine kit screen = true
  reads : log.countP (·.isRead) ≤ readBound io
  writes : log.countP (·.isWrite) ≤ writeBound

/-! ### Reads and presses after the typing -/

/-- Only reads, waits and presses were added, so many of each. -/
structure Adds (start : List SendEvent) (reads presses : Nat) (log : List SendEvent) : Prop where
  tail : ∃ tail, log = start ++ tail ∧ (∀ e ∈ tail, e.isType = false ∧ e.isComposerSeen = false) ∧
    tail.countP (·.isRead) ≤ reads ∧ tail.countP (·.isWrite) ≤ presses

variable {engine kit io args}

theorem Adds.refl (start : List SendEvent) : Adds start 0 0 start :=
  ⟨[], (List.append_nil start).symm, fun _ he => absurd he List.not_mem_nil, le_rfl, le_rfl⟩

variable {start mid log : List SendEvent} {r k r' k' : Nat}

theorem Adds.trans (h : Adds start r k mid) (h' : Adds mid r' k' log) : Adds start (r + r') (k + k') log := by
  obtain ⟨tail, rfl, hother, hreads, hwrites⟩ := h
  obtain ⟨tail', rfl, hother', hreads', hwrites'⟩ := h'
  refine ⟨tail ++ tail', List.append_assoc .., fun e he => ?_, ?_, ?_⟩
  · exact (List.mem_append.mp he).elim (hother e) (hother' e)
  · rw [List.countP_append]
    exact Nat.add_le_add hreads hreads'
  · rw [List.countP_append]
    exact Nat.add_le_add hwrites hwrites'

theorem Adds.mono (h : Adds start r k log) (hr : r ≤ r') (hk : k ≤ k') : Adds start r' k' log := by
  obtain ⟨tail, hlog, hother, hreads, hwrites⟩ := h
  exact ⟨tail, hlog, hother, hreads.trans hr, hwrites.trans hk⟩

/-- A part of a send that adds so many reads and presses at most, and nothing else. -/
def Costs {α : Type} (m : Logged SendEvent α) (reads presses : Nat) : Prop :=
  ∀ start r k, Logged.Triple (Adds start r k) m fun _ => Adds start (r + reads) (k + presses)

variable {α : Type}

theorem Costs.pure (a : α) : Costs (Pure.pure a) 0 0 := fun _ _ _ _ h => h

theorem Costs.bind {α β : Type} {m : Logged SendEvent α} {f : α → Logged SendEvent β}
    {r k r' k' : Nat} (hm : Costs m r k) (hf : ∀ a, Costs (f a) r' k') :
    Costs (m >>= f) (r + r') (k + k') := by
  intro start r₀ k₀
  refine (hm start r₀ k₀).bind fun a => ?_
  rw [← Nat.add_assoc, ← Nat.add_assoc]
  exact hf a start _ _

variable {β : Type} {m : Logged SendEvent α}

theorem Costs.bind_pure {f : α → Logged SendEvent β} (hm : Costs m r k) (hf : ∀ a, Costs (f a) 0 0) :
    Costs (m >>= f) r k :=
  @Costs.bind α β m f r k 0 0 hm hf

theorem Costs.mono (h : Costs m r k) (hr : r ≤ r') (hk : k ≤ k') : Costs m r' k' :=
  fun start r₀ k₀ => (h start r₀ k₀).post fun _ _ hadds =>
    hadds.mono (Nat.add_le_add_left hr r₀) (Nat.add_le_add_left hk k₀)

theorem costs_perform {answer : List SendEvent → β} {entry : β → SendEvent}
    (h : ∀ b, (entry b).isType = false ∧ (entry b).isComposerSeen = false ∧ [entry b].countP (·.isRead) ≤ r ∧
      [entry b].countP (·.isWrite) ≤ k) :
    Costs (Logged.perform answer entry) r k := by
  intro start r₀ k₀
  refine Logged.Triple.perform fun log hlog => hlog.trans ?_
  obtain ⟨htype, hseen, hread, hwrite⟩ := h (answer log)
  exact ⟨_, rfl, fun e he => List.mem_singleton.mp he ▸ ⟨htype, hseen⟩, hread, hwrite⟩

theorem costs_readScreen : Costs (readScreen io) 1 0 := costs_perform fun _ => ⟨rfl, rfl, le_rfl, le_rfl⟩

theorem costs_sleep (ms : Nat) : Costs (sleep ms) 0 0 := costs_perform fun _ => ⟨rfl, rfl, le_rfl, le_rfl⟩

theorem costs_pollSleep (first : Bool) (ms : Nat) : Costs (pollSleep first ms) 0 0 := by
  cases first with
  | true => exact .pure ()
  | false => exact costs_sleep ms

theorem costs_submitOnly (keys : Option (List String)) : Costs (submitOnly io keys) 0 1 := by
  have hpress : Costs (Logged.perform io.submit fun _ => .submit keys) 0 1 :=
    costs_perform fun _ => ⟨rfl, rfl, le_rfl, le_rfl⟩
  refine hpress.bind_pure fun result => ?_
  cases result <;> exact .pure _

theorem costs_submitClearedDraft (attempts : Nat) (first : Bool) :
    Costs (submitClearedDraft engine kit io args attempts first) attempts 0 := by
  induction attempts generalizing first with
  | zero => exact .pure false
  | succ attempts ih =>
    rw [submitClearedDraft]
    refine Costs.mono (r := 0 + (1 + attempts)) (k := 0 + (0 + 0))
      ((costs_pollSleep first _).bind fun _ => costs_readScreen.bind fun answer => ?_)
      (by omega) le_rfl
    cases answer with
    | none => exact ih false
    | some screen =>
      dsimp only
      split
      · exact ih false
      · exact (Costs.pure true).mono (Nat.zero_le _) le_rfl

theorem costs_lookHeld : Costs (lookHeld engine kit io args) 1 0 := by
  refine costs_readScreen.bind_pure fun answer => ?_
  cases answer with
  | none => exact .pure _
  | some screen =>
    dsimp only
    split
    · exact .pure _
    · split <;> exact .pure _

theorem waitWhileHeld_adds (step reads : Nat) (last : Option HeldState) (start : List SendEvent) (r k : Nat) :
    Logged.Triple (Adds start r k) (waitWhileHeld engine kit io args step reads last)
      fun waited log => waited.2 ≤ reads ∧ Adds start (r + (1 + (reads - waited.2))) k log := by
  induction reads generalizing last r with
  | zero =>
    rw [waitWhileHeld]
    refine (costs_lookHeld start r k).bind fun state => ?_
    intro log hlog
    split
    · exact ⟨le_rfl, hlog⟩
    · split <;> exact ⟨le_rfl, hlog⟩
  | succ reads ih =>
    rw [waitWhileHeld]
    refine (costs_lookHeld start r k).bind fun state => ?_
    intro log hlog
    have hnow : Adds start (r + (1 + (reads + 1 - (reads + 1)))) k log := by
      rw [Nat.sub_self]
      exact hlog
    split
    · exact ⟨le_rfl, hnow⟩
    split
    · exact ⟨le_rfl, hnow⟩
    · dsimp only
      obtain ⟨hle, hadds⟩ := ((costs_sleep step start (r + 1) (k + 0)).bind fun _ =>
        ih (state.or last) (r + 1 + 0)) log hlog
      exact ⟨hle.trans (Nat.le_succ reads), hadds.mono (by omega) le_rfl⟩

theorem costs_heldPresses (step left : Nat) (pressed : Bool) (reads : Nat) :
    Costs (heldPresses engine kit io args step left pressed reads) (left + left * io.pollAttempts + reads) left := by
  induction left generalizing pressed reads with
  | zero => exact (Costs.pure _).mono (Nat.zero_le _) le_rfl
  | succ left ih =>
    intro start r k
    rw [heldPresses]
    refine (waitWhileHeld_adds step reads none start r k).bind fun ⟨state, rest⟩ => ?_
    rintro log ⟨hle, hlog⟩
    have hstop : Adds start (r + (left + 1 + (left + 1) * io.pollAttempts + reads))
        (k + (left + 1)) log := hlog.mono (by dsimp only at hle ⊢; omega) (by omega)
    dsimp only at hle hlog ⊢
    split
    · exact hstop
    · exact hstop
    split
    · exact hstop
    · have hpress : Costs (do
          let _ ← submitOnly io (if pressed = true then some ["Enter"] else kit.submitKeys)
          if ← submitClearedDraft engine kit io args io.pollAttempts true then return .sent
          else heldPresses engine kit io args step left true rest)
          (0 + (io.pollAttempts + (left + left * io.pollAttempts + rest))) (1 + (0 + left)) := by
        refine (costs_submitOnly _).bind fun _ => (costs_submitClearedDraft _ _).bind fun cleared => ?_
        split
        · exact (Costs.pure _).mono (Nat.zero_le _) (Nat.zero_le _)
        · exact ih true rest
      refine (hpress start _ _ log hlog).mono ?_ (by omega)
      rw [Nat.succ_mul]
      omega

theorem costs_finishSubmit : Costs (finishSubmit engine kit io args) (pressReads io) MAX_HELD_PRESSES := by
  unfold finishSubmit
  split
  · exact costs_heldPresses _ _ _ _
  · have hbound : 0 + (io.pollAttempts + (0 + 0)) ≤ pressReads io := by
      refine le_trans ?_ (Nat.le_add_right _ _)
      simp only [MAX_HELD_PRESSES]
      omega
    refine Costs.mono (k := 1 + (0 + (1 + 0))) ?_ hbound (by decide)
    refine (costs_submitOnly _).bind fun first => ?_
    split
    · exact (Costs.pure _).mono (Nat.zero_le _) (Nat.zero_le _)
    · refine (costs_submitClearedDraft _ _).bind fun cleared => ?_
      split
      · exact (Costs.pure _).mono (Nat.zero_le _) (Nat.zero_le _)
      · refine (costs_submitOnly _).bind fun rescue => ?_
        split
        · exact .pure _
        · split <;> exact .pure _

theorem costs_verify (attempts : Nat) (first : Bool) (lastSeen : Option String) :
    Costs (verify engine kit io args attempts first lastSeen) (attempts + pressReads io)
      MAX_HELD_PRESSES := by
  induction attempts generalizing first lastSeen with
  | zero =>
    unfold verify
    split <;> exact (Costs.pure _).mono (Nat.zero_le _) (Nat.zero_le _)
  | succ attempts ih =>
    rw [verify]
    refine Costs.mono (r := 0 + (1 + (attempts + pressReads io))) (k := 0 + (0 + MAX_HELD_PRESSES))
      ((costs_pollSleep first _).bind fun _ => costs_readScreen.bind fun answer => ?_)
      (by omega) (by omega)
    cases answer with
    | none => exact ih false lastSeen
    | some screen =>
      dsimp only
      split
      · exact costs_finishSubmit.mono (Nat.le_add_left _ _) le_rfl
      · exact ih false _

/-! ### Up to the typing -/

/-- What a send has done before it types, and whether it may type then. -/
inductive Opened (engine : Engine Lines) (kit : ComposerKit Lines) (args : GuardedSendArgs) :
    Bool → List SendEvent → Prop
  | unread : kit.composerReady = none → Opened engine kit args true []
  | lost : Opened engine kit args true [.read none]
  | refused (screen : String) : Opened engine kit args false [.read (some screen)]
  /-- A read that saw the composer, or a forced send. -/
  | looked (screen : String) : (showsComposer engine kit screen = false → args.force = true) →
      Opened engine kit args true [.read (some screen)]
  /-- The caller's work, which sent no keys or stopped the send. -/
  | prepared (mayType : Bool) (screen : String) (seen : ComposerSeen) :
      showsComposer engine kit screen = true → showsUnbindable engine kit screen = false →
      (mayType = true → ¬ KeysSent args seen [.read (some screen)]) →
      Opened engine kit args mayType [.read (some screen), .composerSeen seen]
  /-- The caller's work, its keys, and one more read. -/
  | confirmed (mayType : Bool) (screen : String) (seen : ComposerSeen) (answer : Option String) :
      showsComposer engine kit screen = true → showsUnbindable engine kit screen = false →
      (mayType = true → ∀ screen ∈ answer, showsComposer engine kit screen = true) →
      Opened engine kit args mayType [.read (some screen), .composerSeen seen, .read answer]

/-- A finished send is an opening that ended it, or an opening, the text, and what comes after. -/
inductive SendRun (engine : Engine Lines) (kit : ComposerKit Lines) (io : GuardedSendIo)
    (args : GuardedSendArgs) (log : List SendEvent) : Prop
  | ended (opened : Opened engine kit args false log)
  | typed (start : List SendEvent) (paste : Bool) (opened : Opened engine kit args true start)
      (adds : Adds (start ++ [.type args.text paste]) (io.pollAttempts + pressReads io) MAX_HELD_PRESSES log)

theorem typeAndSubmit_sent : Logged.Triple (Opened engine kit args true) (typeAndSubmit engine kit io args)
      fun _ => SendRun engine kit io args := by
  unfold typeAndSubmit
  refine Logged.Triple.of_forall fun start hstart => ?_
  have htype : ∀ paste, Logged.Triple (· = start) (Logged.perform io.type fun _ => .type args.text paste) fun _ log =>
        log = start ++ [.type args.text paste] :=
    fun paste => Logged.Triple.perform fun log hlog => by rw [hlog]
  generalize (kit.bracketedPaste && args.text.toList.contains '\n') = paste at *
  refine (htype paste).bind fun result => ?_
  rintro log rfl
  cases result with
  | failed | threw => exact .typed start paste hstart ((Adds.refl _).mono (Nat.zero_le _) (Nat.zero_le _))
  | ok =>
    refine .typed start paste hstart ?_
    have hverify := @costs_verify Lines engine kit io args io.pollAttempts true none
      (start ++ [.type args.text paste]) 0 0 _ (Adds.refl _)
    simpa only [Nat.zero_add] using hverify

variable {screen : String}

theorem runPreType_opened (seen : ComposerSeen) (hready : showsComposer engine kit screen = true)
    (hbindable : showsUnbindable engine kit screen = false) :
    Logged.Triple (· = [.read (some screen)]) (runPreType engine kit io args seen)
      fun outcome => Opened engine kit args outcome.isNone := by
  unfold runPreType
  split
  · rintro log rfl
    exact .looked screen fun hnot => Bool.noConfusion (hready.symm.trans hnot)
  · rename_i onComposerSeen hcaller
    have hwork : Logged.Triple (· = [.read (some screen)])
        (Logged.perform (onComposerSeen seen) fun _ => .composerSeen seen) fun result log =>
          result = onComposerSeen seen [.read (some screen)] ∧ log = [.read (some screen), .composerSeen seen] :=
      Logged.Triple.perform fun log hlog => by rw [hlog]; exact ⟨rfl, rfl⟩
    have hquiet {result : ComposerPrepResult}
        (hresult : result = onComposerSeen seen [.read (some screen)]) (hnot : result ≠ .ok true) :
        ¬ KeysSent args seen [.read (some screen)] := by
      rintro ⟨caller, hsame, hsent⟩
      obtain rfl := Option.some.inj (hcaller.symm.trans hsame)
      exact hnot (hresult.trans hsent)
    refine hwork.bind fun result => ?_
    rintro log ⟨hresult, rfl⟩
    split
    · exact .prepared _ screen seen hready hbindable fun hnone => Bool.noConfusion hnone
    · exact .prepared _ screen seen hready hbindable fun hnone => Bool.noConfusion hnone
    · exact .prepared _ screen seen hready hbindable fun _ => hquiet hresult (by simp)
    · have hread : Logged.Triple (· = [.read (some screen), .composerSeen seen]) (readScreen io)
          fun answer log => log = [.read (some screen), .composerSeen seen, .read answer] :=
        Logged.Triple.perform fun log hlog => by rw [hlog]; rfl
      refine (hread.bind (R := fun (outcome : Option ReplyOutcome) =>
        Opened engine kit args outcome.isNone)
        fun answer => ?_) _ rfl
      rintro log rfl
      cases answer with
      | none => exact .confirmed _ screen seen none hready hbindable fun _ _ hnone => by cases hnone
      | some again =>
        dsimp only
        split
        · rename_i hagain
          refine .confirmed _ screen seen (some again) hready hbindable fun _ other hother => ?_
          cases hother
          exact hagain
        · exact .confirmed _ screen seen (some again) hready hbindable fun hnone => Bool.noConfusion hnone

/-- What the pre-flight may decide, with the log it leaves. -/
def PreflightOpened (engine : Engine Lines) (kit : ComposerKit Lines) (args : GuardedSendArgs) :
    Preflight → List SendEvent → Prop
  | .refuse _, log => Opened engine kit args false log
  | .blind, log => Opened engine kit args true log
  | .seen _, log => ∃ screen, log = [.read (some screen)] ∧
      showsComposer engine kit screen = true ∧ showsUnbindable engine kit screen = false

theorem preflight_opened :
    Logged.Triple (· = []) (preflight engine kit io args) (PreflightOpened engine kit args) := by
  unfold preflight
  split
  · rename_i hreader
    rintro log rfl
    exact Opened.unread hreader
  · rename_i composerReady hreader
    have hshows (screen : String) : showsComposer engine kit screen = composerReady (engine.parseLines screen) := by
      rw [showsComposer, hreader, Option.any_some]
    have hread : Logged.Triple (· = []) (readScreen io) fun answer log => log = [.read answer] :=
      Logged.Triple.perform fun log hlog => by rw [hlog]; rfl
    refine hread.bind fun answer => ?_
    rintro log rfl
    cases answer with
    | none => exact Opened.lost
    | some screen =>
      dsimp only
      split
      · split
        · rename_i hforce
          exact Opened.looked screen fun _ => hforce
        · cases engine.detectNoEchoPrompt (engine.parseLines screen) <;> exact Opened.refused screen
      · rename_i hready
        cases hbindable : kit.unbindableComposer.bind fun unbindable =>
            unbindable (engine.parseLines screen) with
        | some unbindable => exact Opened.refused screen
        | none =>
          refine ⟨screen, rfl, (hshows screen).trans (by simpa using hready), ?_⟩
          rw [showsUnbindable, hbindable]
          rfl

theorem runGuardedSend_sent (hreadable : kit.replyOneShot = false) :
    SendRun engine kit io args (runGuardedSend engine io args (some kit) []).2 := by
  have hsend : Logged.Triple (· = []) (runGuardedSend engine io args (some kit))
      fun _ => SendRun engine kit io args := by
    unfold runGuardedSend
    simp only [hreadable, Bool.false_eq_true, if_false]
    refine preflight_opened.bind fun decided => ?_
    cases decided with
    | refuse outcome => exact fun log hlog => .ended hlog
    | blind => exact typeAndSubmit_sent
    | seen seen =>
      rintro log ⟨screen, rfl, hready, hbindable⟩
      refine ((runPreType_opened seen hready hbindable).bind (R := fun _ => SendRun engine kit io args)
        fun outcome => ?_) _ rfl
      cases outcome with
      | some outcome => exact fun log hlog => .ended hlog
      | none => exact typeAndSubmit_sent
  exact hsend [] rfl

/-! ### The rules of a finished send -/

variable {before : List SendEvent}

theorem split_of_none {p : SendEvent → Bool} {first after : List SendEvent} {e : SendEvent}
    (h : first ++ mid = before ++ e :: after) (he : p e = true) (hmid : ∀ e ∈ mid, p e = false) :
    ∃ rest, first = before ++ e :: rest ∧ after = rest ++ mid := by
  rcases List.append_eq_append_iff.mp h with ⟨more, hbefore, hmore⟩ | ⟨more, hfirst, hmore⟩
  · have hnone := hmid e (by rw [hmore]; simp)
    rw [he] at hnone
    cases hnone
  · cases more with
    | nil =>
      have hnone := hmid e (by rw [← List.nil_append mid, ← hmore]; simp)
      rw [he] at hnone
      cases hnone
    | cons e' rest =>
      obtain ⟨rfl, rfl⟩ := List.cons.inj hmore
      exact ⟨rest, hfirst, rfl⟩

variable {mayType : Bool} {rest : List SendEvent}

private theorem Opened.seen {seen : ComposerSeen}
    (h : Opened engine kit args mayType (before ++ .composerSeen seen :: rest)) :
    (∃ screen, before = [.read (some screen)] ∧ showsComposer engine kit screen = true ∧
      showsUnbindable engine kit screen = false) ∧
    (mayType = true → KeysSent args seen before → ∃ answer, rest = [.read answer] ∧
      ∀ screen ∈ answer, showsComposer engine kit screen = true) := by
  generalize hlog : before ++ .composerSeen seen :: rest = log at h
  cases h with
  | unread | lost | refused | looked => cases before <;> simp at hlog
  | prepared _ screen seen' hready hbindable hquiet =>
    obtain ⟨rfl, rfl, rfl⟩ : before = [.read (some screen)] ∧ seen = seen' ∧ rest = [] := by
      cases before with
      | nil => simp at hlog
      | cons e before => cases before <;> simp_all
    exact ⟨⟨screen, rfl, hready, hbindable⟩, fun htype hsent => absurd hsent (hquiet htype)⟩
  | confirmed _ screen seen' answer hready hbindable hagain =>
    obtain ⟨rfl, rfl, rfl⟩ : before = [.read (some screen)] ∧ seen = seen' ∧ rest = [.read answer] := by
      match before, hlog with
      | [], hlog => simp at hlog
      | [e], hlog => simp_all
      | [e, e'], hlog => simp at hlog
      | e :: e' :: e'' :: before, hlog => simp at hlog
    exact ⟨⟨screen, rfl, hready, hbindable⟩, fun htype _ => ⟨answer, rfl, hagain htype⟩⟩

private theorem Opened.counts (h : Opened engine kit args mayType log) :
    log.countP (·.isType) = 0 ∧ log.countP (·.isComposerSeen) ≤ 1 ∧
      log.countP (·.isRead) ≤ 2 ∧ log.countP (·.isWrite) ≤ 1 := by
  cases h <;> simp [SendEvent.isType, SendEvent.isComposerSeen, SendEvent.isRead, SendEvent.isWrite]

theorem Opened.forced (h : Opened engine kit args true (.read (some screen) :: rest))
    (hhidden : showsComposer engine kit screen = false) : args.force = true := by
  cases h with
  | looked _ hforce => exact hforce hhidden
  | prepared _ _ _ hready | confirmed _ _ _ _ hready =>
    exact Bool.noConfusion (hready.symm.trans hhidden)

private theorem Opened.guarded (h : Opened engine kit args false log) : ComposerGuarded engine kit io args log := by
  obtain ⟨htyped, hseen, hreads, hwrites⟩ := h.counts
  refine ⟨hseen, fun before seen after hlog => ?_, htyped.le.trans (Nat.zero_le 1),
    fun screen rest hlog _ _ _ => ?_, fun before seen between text paste after hlog => ?_,
    hreads.trans (Nat.le_add_right _ _), hwrites.trans (by decide)⟩
  · obtain ⟨⟨screen, rfl, hready, hbindable⟩, -⟩ := (hlog ▸ h).seen
    exact ⟨[], screen, rfl, hready, hbindable⟩
  · rw [hlog, List.countP_cons_of_neg (by simp [SendEvent.isType])] at htyped
    exact htyped
  · rw [List.countP_eq_zero] at htyped
    exact absurd rfl (htyped (.type text paste) (by rw [hlog]; simp))

theorem Opened.typed_guarded {paste : Bool} (h : Opened engine kit args true start)
    (hadds : Adds (start ++ [.type args.text paste]) (io.pollAttempts + pressReads io) MAX_HELD_PRESSES log) :
    ComposerGuarded engine kit io args log := by
  obtain ⟨tail, rfl, hother, htailReads, htailWrites⟩ := hadds
  obtain ⟨htyped, hseen, hreads, hwrites⟩ := h.counts
  have htailTyped : tail.countP (·.isType) = 0 := List.countP_eq_zero.mpr fun e he => by simp [(hother e he).1]
  have htailSeen : tail.countP (·.isComposerSeen) = 0 :=
    List.countP_eq_zero.mpr fun e he => by simp [(hother e he).2]
  have hquiet : ∀ e ∈ [.type args.text paste] ++ tail, e.isComposerSeen = false := by
    intro e he
    rcases List.mem_append.mp he with he | he
    · exact List.mem_singleton.mp he ▸ rfl
    · exact (hother e he).2
  have hsplit {before after : List SendEvent} {seen : ComposerSeen}
      (hlog : start ++ [.type args.text paste] ++ tail = before ++ .composerSeen seen :: after) :
      ∃ rest, start = before ++ .composerSeen seen :: rest ∧ after = rest ++ ([.type args.text paste] ++ tail) :=
    split_of_none (by rw [← hlog, List.append_assoc]) rfl hquiet
  refine ⟨?_, fun before seen after hlog => ?_, ?_, fun screen rest hlog _ hhidden hforce => ?_,
    fun before seen between text paste' after hlog hsent => ?_, ?_, ?_⟩
  · rw [List.countP_append, List.countP_append, htailSeen]
    exact hseen
  · obtain ⟨rest, hstart, -⟩ := hsplit hlog
    obtain ⟨⟨screen, rfl, hready, hbindable⟩, -⟩ := (hstart ▸ h).seen
    exact ⟨[], screen, rfl, hready, hbindable⟩
  · rw [List.countP_append, List.countP_append, htailTyped, htyped]
    exact le_rfl
  · cases start with
    | nil => cases hlog
    | cons e start =>
      obtain ⟨rfl, -⟩ := List.cons.inj hlog
      exact Bool.noConfusion (hforce.symm.trans (h.forced hhidden))
  · obtain ⟨rest, hstart, hafter⟩ := hsplit hlog
    obtain ⟨answer, rfl, hagain⟩ := (hstart ▸ h).seen.2 rfl hsent
    refine ⟨answer, ?_, hagain⟩
    cases between with
    | nil => cases hafter
    | cons e between =>
      obtain ⟨rfl, hrest⟩ := List.cons.inj hafter
      cases between with
      | nil => rfl
      | cons e between =>
        have htail : between ++ .type text paste' :: after = tail := (List.cons.inj hrest).2
        have hmem : SendEvent.type text paste' ∈ tail := by
          rw [← htail]
          simp
        cases (hother _ hmem).1
  · rw [readBound, List.countP_append, List.countP_append]
    exact Nat.add_le_add (by simpa [SendEvent.isRead] using hreads) htailReads
  · rw [writeBound, List.countP_append, List.countP_append]
    exact Nat.add_le_add (Nat.add_le_add hwrites le_rfl) htailWrites

end

/-- Whatever the screens, the answers and the caller's work: a send of a kit that can read its box runs
that work once at most, right after it saw the composer; types once at most, and not past a pre-flight
without the composer unless forced, nor after the caller's keys without another look; and reads and writes
a bounded number of times. -/
theorem runGuardedSend_guarded {Lines : Type} (engine : Engine Lines) (kit : ComposerKit Lines)
    (io : GuardedSendIo) (args : GuardedSendArgs) (hreadable : kit.replyOneShot = false) :
    ComposerGuarded engine kit io args (runGuardedSend engine io args (some kit) []).2 := by
  rcases @runGuardedSend_sent Lines engine kit io args hreadable with
    hended | ⟨start, paste, hopened, hadds⟩
  · exact hended.guarded
  · exact hopened.typed_guarded hadds

/-- A send whose caller clears the box first. -/
theorem runGuardedSend_guarded_boxKit : ComposerGuarded boxEngine boxKit lostIo
      { text := "run the tests", onComposerSeen := some fun _ _ => .ok true }
      (runGuardedSend boxEngine lostIo
        { text := "run the tests", onComposerSeen := some fun _ _ => .ok true } (some boxKit) []).2 :=
  runGuardedSend_guarded boxEngine boxKit lostIo _ rfl

end Sightr
