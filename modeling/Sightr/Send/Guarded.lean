import Sightr.Lib.Logged
import Sightr.Send.Draft

/-!
# The guarded send

`runGuardedSend` of `shared/harness/guarded-send.ts`: type unsubmitted, read until the input box shows
the text, press submit, and confirm that the box emptied. Reads and writes are actions a pane answers
as it likes, looking at everything done so far; the log of a run holds them in order. A kit and the
screens it reads are parameters.
-/

namespace Sightr

/-! ### The pane and the kit -/

inductive WriteResult
  | ok
  | failed (error : String)
  | threw (message : String)
  deriving DecidableEq

structure ComposerSeen where
  promptRegion : Option String
  draft : Option String
  deriving DecidableEq

inductive ComposerPrepResult
  | ok (keysSent : Bool)
  | failed (error : String)
  | threw (message : String)
  deriving DecidableEq

/-- What a send does, with the answers that bear on it. -/
inductive SendEvent
  | read (screen : Option String)
  | type (text : String) (paste : Bool)
  | submit (keys : Option (List String))
  | oneShot (text : String)
  | sleep (ms : Nat)
  /-- The caller's `onComposerSeen` ran, and may have sent keys. -/
  | composerSeen (seen : ComposerSeen)
  deriving DecidableEq

structure GuardedSendIo where
  read : List SendEvent → Option String
  type : List SendEvent → WriteResult
  submit : List SendEvent → WriteResult
  oneShot : List SendEvent → WriteResult
  pollAttempts : Nat
  pollDelayMs : Nat

structure GuardedSendArgs where
  text : String
  force : Bool := false
  onComposerSeen : Option (ComposerSeen → List SendEvent → ComposerPrepResult) := none

structure ComposerKit (Lines : Type) where
  extractInputDraft : Lines → Option String
  composerReady : Option (Lines → Bool) := none
  submitHeld : Option (Lines → Bool) := none
  composerPrompt : Option (Lines → Option String) := none
  unbindableComposer : Option (Lines → Option String) := none
  draftCarriesSend : Option (String → String → Bool) := none
  submitKeys : Option (List String) := none
  bracketedPaste : Bool := false
  replyOneShot : Bool := false

/-- What the guard takes from elsewhere: the screen parser, the test for a password prompt, and the
engine's segmenter. -/
structure Engine (Lines : Type) where
  parseLines : String → Lines
  detectNoEchoPrompt : Lines → Option String
  graphemes : Graphemes

inductive ReplyOutcome
  | sent
  | blocked (error : String) (noEcho : Option String)
  | stalled (error : String) (noEcho : Option String)
  | error (error : String) (textDelivered : Bool)
  deriving DecidableEq

/-! ### The send -/

def NO_BOX : String := "The agent's input box isn't on screen — a menu or dialog is probably up. Nothing was typed."

def NO_ECHO : String :=
  "That's a password prompt — it shows nothing as you type, so Send can never confirm the text " ++
    "arrived. Nothing was typed."

def LEFT_SCREEN : String :=
  "The agent's input box left the screen while its input line was being cleared — a menu or dialog " ++
    "is probably up. Your message wasn't typed."

def STALLED_NO_ECHO : String :=
  "That's a password prompt — it shows nothing as you type, so the text can't be confirmed and " ++
    "nothing was submitted. What you typed is already in the pane."

def STALLED : String :=
  "Message didn't reach the input box — a dialog may be waiting, and if you were answering it by key " ++
    "that key likely landed. Nothing was submitted."

def NOT_SUBMITTED : String := "typed into the pane but not submitted — check the pane before resending"

def LEFT_BOX : String := "The message left the input box before it was submitted — check the pane before resending"

/-- How long, at most, the guard waits for a harness to stop holding a submit. -/
def SUBMIT_HELD_WAIT_MS : Nat := 20000

def SUBMIT_HELD_STEP_MS : Nat := 250

def MAX_HELD_PRESSES : Nat := 3

section

variable {Lines : Type} (engine : Engine Lines) (kit : ComposerKit Lines) (io : GuardedSendIo)
  (args : GuardedSendArgs)

def readScreen : Logged SendEvent (Option String) := Logged.perform io.read .read

def sleep (ms : Nat) : Logged SendEvent Unit := Logged.perform (fun _ => ()) fun _ => .sleep ms

/-- The wait before every read of a poll but the first. -/
def pollSleep (first : Bool) (ms : Nat) : Logged SendEvent Unit :=
  if first then pure () else sleep ms

/-- Does the draft on the screen hold this send: the generic match, or the adapter's? -/
def draftHoldsSend (lines : Lines) : Bool :=
  let draft := kit.extractInputDraft lines
  draftCarriesSend engine.graphemes args.text draft ||
    draft.any fun draft => kit.draftCarriesSend.any fun carries => carries args.text draft

/-- Whether this screen's composer still holds this send. -/
def boxHoldsSend (lines : Lines) : Bool :=
  if kit.composerReady.any fun ready => !ready lines then false
  else draftHoldsSend engine kit args lines

def submitOnly (keys : Option (List String)) : Logged SendEvent ReplyOutcome := do
  match ← Logged.perform io.submit fun _ => .submit keys with
  | .ok => return .sent
  | .failed _ => return .error NOT_SUBMITTED true
  | .threw message => return .error message true

def submitClearedDraft (attempts : Nat) (first : Bool) : Logged SendEvent Bool :=
  match attempts with
  | 0 => return false
  | attempts + 1 => do
    pollSleep first io.pollDelayMs
    match ← readScreen io with
    | none => submitClearedDraft attempts false
    | some screen =>
      if boxHoldsSend engine kit args (engine.parseLines screen) then
        submitClearedDraft attempts false
      else return true

def typedUnsubmitted : ReplyOutcome → Bool
  | .error _ textDelivered => textDelivered
  | _ => false

inductive HeldState
  | ready | gone | held | unknown
  deriving DecidableEq

def lookHeld : Logged SendEvent (Option HeldState) := do
  match ← readScreen io with
  | none => return none
  | some screen =>
    let lines := engine.parseLines screen
    if !boxHoldsSend engine kit args lines then return some .gone
    else if !kit.submitHeld.any (fun held => held lines) then return some .ready
    else return some .held

/-- Read until the box can take a submit, `reads` more times at most; with the reads left. -/
def waitWhileHeld (step : Nat) (reads : Nat) (last : Option HeldState) : Logged SendEvent (HeldState × Nat) := do
  let state ← lookHeld engine kit io args
  if state = some .gone then return (.gone, reads)
  else if state = some .ready then return (.ready, reads)
  else
    match reads with
    | 0 => return ((state.or last).getD .unknown, 0)
    | reads + 1 =>
      sleep step
      waitWhileHeld step reads (state.or last)

/-- The presses into a box that may hold them, `left` of them at most. -/
def heldPresses (step : Nat) (left : Nat) (pressed : Bool) (reads : Nat) : Logged SendEvent ReplyOutcome :=
  match left with
  | 0 => return .error NOT_SUBMITTED true
  | left + 1 => do
    let (state, reads) ← waitWhileHeld engine kit io args step reads none
    match state with
    | .gone => return if pressed then .sent else .error LEFT_BOX true
    | .unknown => return .error NOT_SUBMITTED true
    | state =>
      if state = .held && pressed then return .error NOT_SUBMITTED true
      else
        let _ ← submitOnly io (if pressed then some ["Enter"] else kit.submitKeys)
        if ← submitClearedDraft engine kit io args io.pollAttempts true then return .sent
        else heldPresses step left true reads

def finishHeldSubmit : Logged SendEvent ReplyOutcome :=
  let step := max io.pollDelayMs SUBMIT_HELD_STEP_MS
  heldPresses engine kit io args step MAX_HELD_PRESSES false ((SUBMIT_HELD_WAIT_MS + step - 1) / step)

/-- Press submit, then confirm the draft left the box; a second bare Enter is the rescue. -/
def finishSubmit : Logged SendEvent ReplyOutcome := do
  if kit.submitHeld.isSome then finishHeldSubmit engine kit io args
  else
    let first ← submitOnly io kit.submitKeys
    match first with
    | .error message false => return .error message false
    | _ =>
      if ← submitClearedDraft engine kit io args io.pollAttempts true then return .sent
      else
        let rescue ← submitOnly io (some ["Enter"])
        if rescue = .sent then return .sent
        else if first = .sent || typedUnsubmitted first || typedUnsubmitted rescue then
          return .error NOT_SUBMITTED true
        else return rescue

/-- The verification reads, and the submit once one of them shows the text. -/
def verify (attempts : Nat) (first : Bool) (lastSeen : Option String) : Logged SendEvent ReplyOutcome :=
  match attempts with
  | 0 =>
    match lastSeen with
    | some prompt => return .stalled STALLED_NO_ECHO (some prompt)
    | none => return .stalled STALLED none
  | attempts + 1 => do
    pollSleep first io.pollDelayMs
    match ← readScreen io with
    | none => verify attempts false lastSeen
    | some screen =>
      let lines := engine.parseLines screen
      let composerVisible := kit.composerReady.any fun ready => ready lines
      let lastSeen := if composerVisible then none else engine.detectNoEchoPrompt lines
      if draftHoldsSend engine kit args lines then finishSubmit engine kit io args
      else verify attempts false lastSeen

/-- What the pre-flight decided: refuse, type without the caller's work, or run that work on what the
read saw. -/
inductive Preflight
  | refuse (outcome : ReplyOutcome)
  | blind
  | seen (seen : ComposerSeen)

/-- One live read, and everything the rest of the send is allowed to do with it. -/
def preflight : Logged SendEvent Preflight :=
  match kit.composerReady with
  | none => return .blind
  | some composerReady => do
    match ← readScreen io with
    | none => return .blind
    | some screen =>
      let seen := engine.parseLines screen
      if !composerReady seen then
        if args.force then return .blind
        else
          match engine.detectNoEchoPrompt seen with
          | some noEcho => return .refuse (.blocked NO_ECHO (some noEcho))
          | none => return .refuse (.blocked NO_BOX none)
      else
        match kit.unbindableComposer.bind fun unbindable => unbindable seen with
        | some unbindable =>
          return .refuse (.error (unbindable ++ " — close it and send again. Nothing was typed.") false)
        | none =>
          return .seen
            { promptRegion := kit.composerPrompt.bind fun prompt => prompt seen
              draft := kit.extractInputDraft seen }

/-- The caller's work before the typing, and the read that confirms the composer after its keys. -/
def runPreType (seen : ComposerSeen) : Logged SendEvent (Option ReplyOutcome) :=
  match args.onComposerSeen with
  | none => return none
  | some onComposerSeen => do
    match ← Logged.perform (onComposerSeen seen) fun _ => .composerSeen seen with
    | .threw message => return some (.error message false)
    | .failed error => return some (.error error false)
    | .ok false => return none
    | .ok true =>
      match ← readScreen io with
      | none => return none
      | some screen =>
        if kit.composerReady.any fun ready => ready (engine.parseLines screen) then return none
        else return some (.blocked LEFT_SCREEN none)

def typeAndSubmit : Logged SendEvent ReplyOutcome := do
  let paste := kit.bracketedPaste && args.text.toList.contains '\n'
  match ← Logged.perform io.type fun _ => .type args.text paste with
  | .failed error => return .error error false
  | .threw message => return .error message false
  | .ok => verify engine kit io args io.pollAttempts true none

def oneShot : Logged SendEvent ReplyOutcome := do
  match ← Logged.perform io.oneShot fun _ => .oneShot args.text with
  | .ok => return .sent
  | .failed error => return .error error false
  | .threw message => return .error message false

/-- One guarded send; without a kit, or with one that cannot read its box, the text and the submit go
out in one call. -/
def runGuardedSend (kit : Option (ComposerKit Lines)) : Logged SendEvent ReplyOutcome :=
  match kit with
  | none => oneShot io args
  | some kit =>
    if kit.replyOneShot then oneShot io args
    else do
      match ← preflight engine kit io args with
      | .refuse outcome => return outcome
      | .blind => typeAndSubmit engine kit io args
      | .seen seen =>
        match ← runPreType engine kit io args seen with
        | some outcome => return outcome
        | none => typeAndSubmit engine kit io args

/-! ### What a send may do -/

def SendEvent.isWrite : SendEvent → Bool
  | .read _ | .sleep _ => false
  | .type .. | .submit _ | .oneShot _ | .composerSeen _ => true

def SendEvent.isSubmit : SendEvent → Bool
  | .submit _ => true
  | _ => false

def SendEvent.isType : SendEvent → Bool
  | .type .. => true
  | _ => false

/-- A successful read on which the composer held the text. -/
def showsSend : SendEvent → Bool
  | .read (some screen) => draftHoldsSend engine kit args (engine.parseLines screen)
  | _ => false

variable (log : List SendEvent)

/-- A read since the last write showed the composer holding the text. -/
def seenSinceWrite : Bool := (log.reverse.takeWhile fun e => !e.isWrite).any (showsSend engine kit args)

/-- A submit key stands on a read since the last write, and the text was not typed before. -/
def Allowed (e : SendEvent) : Prop :=
  (e.isSubmit = true → seenSinceWrite engine kit args log = true) ∧
    (e.isType = true → ∀ earlier ∈ log, earlier.isType = false)

def Confirmed : Prop :=
  ∀ before keys after, log = before ++ .submit keys :: after →
    (∀ e ∈ before, e.isSubmit = false) → ∃ screen, SendEvent.read (some screen) ∈ after

/-- What a finished send comes to: it kept the rule exactly when its kit can say "held" or some read
after its first press succeeded. -/
def Judged : Prop := Logged.Each (Allowed engine kit args) log ↔ kit.submitHeld.isSome = true ∨ Confirmed log

def Unpressed : Prop := ∀ e ∈ log, e.isSubmit = false

/-! ### Reads and waits -/

def Quiet (polls : List SendEvent) : Prop := ∀ e ∈ polls, e.isWrite = false

theorem Quiet.nil : Quiet [] := fun _ he => absurd he List.not_mem_nil

theorem Quiet.cons {e : SendEvent} {polls : List SendEvent} (he : e.isWrite = false)
    (h : Quiet polls) : Quiet (e :: polls) :=
  List.forall_mem_cons.mpr ⟨he, h⟩

variable {polls more : List SendEvent}

theorem Quiet.append (h : Quiet polls) (h' : Quiet more) : Quiet (polls ++ more) :=
  fun e he => (List.mem_append.mp he).elim (h e) (h' e)

/-- What a confirming poll saw: a box without the text, or nothing but boxes with it. -/
def PollSaw (start : List SendEvent) (cleared : Bool) (log : List SendEvent) : Prop :=
  ∃ polls, log = start ++ polls ∧ Quiet polls ∧ (cleared = true → ∃ screen, .read (some screen) ∈ polls) ∧
    (cleared = false → ∀ screen, .read (some screen) ∈ polls →
      showsSend engine kit args (.read (some screen)) = true)

/-- What a wait for a held box saw: a box to press into showed the text. -/
def WaitSaw (start : List SendEvent) (last : Option HeldState) (state : HeldState) (log : List SendEvent) : Prop :=
  ∃ polls, log = start ++ polls ∧ Quiet polls ∧ (state = .ready ∨ state = .held → last = some .held ∨
      polls.any (showsSend engine kit args) = true)

variable {engine kit args io}

variable {e : SendEvent}

theorem allowed_of_quiet (h : e.isWrite = false) (log : List SendEvent) : Allowed engine kit args log e := by
  cases e <;> simp_all [Allowed, SendEvent.isWrite, SendEvent.isSubmit, SendEvent.isType]

variable {log : List SendEvent}

theorem Quiet.each_iff (h : Quiet polls) : Logged.Each (Allowed engine kit args) (log ++ polls) ↔
      Logged.Each (Allowed engine kit args) log :=
  Logged.each_append_iff fun e he => allowed_of_quiet (h e he)

theorem Quiet.seenSinceWrite (h : Quiet polls) (log : List SendEvent) :
    seenSinceWrite engine kit args (log ++ polls) =
      (polls.any (showsSend engine kit args) || seenSinceWrite engine kit args log) := by
  have hall : ∀ e ∈ polls.reverse, (!e.isWrite) = true := fun e he => by
    simp [h e (List.mem_reverse.mp he)]
  rw [Sightr.seenSinceWrite, List.reverse_append, List.takeWhile_append_of_pos hall,
    List.any_append, List.any_reverse, Sightr.seenSinceWrite]

theorem seenSinceWrite_concat_write (h : e.isWrite = true) :
    seenSinceWrite engine kit args (log ++ [e]) = false := by
  simp [seenSinceWrite, h]

theorem draftHoldsSend_of_boxHoldsSend {lines : Lines} (h : boxHoldsSend engine kit args lines = true) :
    draftHoldsSend engine kit args lines = true := by
  unfold boxHoldsSend at h
  split at h
  · cases h
  · exact h

variable {start : List SendEvent}

private theorem polled {first : Bool} {ms : Nat} {α : Type} {f : Option String → Logged SendEvent α}
    {Q : α → List SendEvent → Prop}
    (h : ∀ answer polls, Quiet polls → (∀ screen, .read screen ∉ polls) →
      Logged.Triple (· = start ++ (polls ++ [.read answer])) (f answer) Q) :
    Logged.Triple (· = start) (pollSleep first ms >>= fun _ => readScreen io >>= f) Q := by
  have hsleep : Logged.Triple (· = start) (pollSleep first ms) fun _ log =>
      ∃ polls, log = start ++ polls ∧ Quiet polls ∧ ∀ screen, .read screen ∉ polls := by
    intro log hlog
    cases first with
    | true =>
      refine ⟨[], ?_, .nil, fun _ => List.not_mem_nil⟩
      rw [List.append_nil]
      exact hlog
    | false => exact ⟨[.sleep ms], by rw [← hlog]; rfl, .cons rfl .nil, by simp⟩
  refine hsleep.bind fun _ => ?_
  rintro log ⟨polls, rfl, hquiet, hsleeps⟩
  exact h _ polls hquiet hsleeps _ (List.append_assoc ..)

variable {pre : List SendEvent}

private theorem PollSaw.extend {cleared : Bool} (hquiet : Quiet pre)
    (hpre : ∀ screen, .read (some screen) ∈ pre → showsSend engine kit args (.read (some screen)) = true)
    (h : PollSaw engine kit args (start ++ pre) cleared log) :
    PollSaw engine kit args start cleared log := by
  obtain ⟨polls, rfl, hpolls, hcleared, hheld⟩ := h
  refine ⟨pre ++ polls, by rw [List.append_assoc], hquiet.append hpolls, fun hc => ?_, fun hc screen hscreen => ?_⟩
  · obtain ⟨screen, hscreen⟩ := hcleared hc
    exact ⟨screen, List.mem_append_right _ hscreen⟩
  · rcases List.mem_append.mp hscreen with hscreen | hscreen
    · exact hpre screen hscreen
    · exact hheld hc screen hscreen

theorem submitClearedDraft_spec (attempts : Nat) (first : Bool) (start : List SendEvent) :
    Logged.Triple (· = start) (submitClearedDraft engine kit io args attempts first)
      (PollSaw engine kit args start) := by
  induction attempts generalizing first start with
  | zero =>
    rintro log rfl
    exact ⟨[], (List.append_nil _).symm, .nil, fun h => absurd h Bool.false_ne_true,
      fun _ _ h => absurd h List.not_mem_nil⟩
  | succ attempts ih =>
    refine polled fun answer polls hquiet hsleeps => ?_
    have hone : Quiet (polls ++ [.read answer]) := hquiet.append (.cons rfl .nil)
    cases answer with
    | none =>
      refine (ih false _).post fun cleared log h => h.extend hone fun screen hscreen => ?_
      simp [hsleeps] at hscreen
    | some screen =>
      dsimp only
      split
      · rename_i hholds
        refine (ih false _).post fun cleared log h => h.extend hone fun screen' hscreen => ?_
        obtain rfl : screen' = screen := by simpa [hsleeps] using hscreen
        exact draftHoldsSend_of_boxHoldsSend hholds
      · rintro log rfl
        exact ⟨_, rfl, hone, fun _ => ⟨screen, by simp⟩, fun h => by cases h⟩

theorem readScreen_spec (start : List SendEvent) :
    Logged.Triple (· = start) (readScreen io) fun answer log => log = start ++ [.read answer] :=
  Logged.Triple.perform fun log hlog => by rw [hlog]

theorem sleep_spec (ms : Nat) (start : List SendEvent) :
    Logged.Triple (· = start) (sleep ms) fun _ log => log = start ++ [.sleep ms] :=
  Logged.Triple.perform fun log hlog => by rw [hlog]

variable {last : Option HeldState}

private theorem WaitSaw.extend {last' : Option HeldState} {state : HeldState} (hquiet : Quiet pre)
    (hlast : last' = some .held → last = some .held ∨ pre.any (showsSend engine kit args) = true)
    (h : WaitSaw engine kit args (start ++ pre) last' state log) :
    WaitSaw engine kit args start last state log := by
  obtain ⟨polls, rfl, hpolls, hstate⟩ := h
  refine ⟨pre ++ polls, by rw [List.append_assoc], hquiet.append hpolls, fun hs => ?_⟩
  rw [List.any_append, Bool.or_eq_true]
  rcases hstate hs with hheld | hshown
  · exact (hlast hheld).imp_right .inl
  · exact .inr (.inr hshown)

theorem lookHeld_spec (start : List SendEvent) :
    Logged.Triple (· = start) (lookHeld engine kit io args) fun state log => ∃ pre,
      log = start ++ pre ∧ Quiet pre ∧ state ≠ some .unknown ∧
        (state = some .ready ∨ state = some .held → pre.any (showsSend engine kit args) = true) := by
  refine (readScreen_spec start).bind fun answer => ?_
  rintro log rfl
  refine ⟨[.read answer], ?_⟩
  cases answer with
  | none => exact ⟨rfl, .cons rfl .nil, by simp, by simp⟩
  | some screen =>
    dsimp only
    split
    · exact ⟨rfl, .cons rfl .nil, by simp, by simp⟩
    · rename_i hholds
      have hshows : [SendEvent.read (some screen)].any (showsSend engine kit args) = true := by
        simpa [showsSend] using draftHoldsSend_of_boxHoldsSend (by simpa using hholds)
      split
      · exact ⟨rfl, .cons rfl .nil, by simp, fun _ => hshows⟩
      · exact ⟨rfl, .cons rfl .nil, by simp, fun _ => hshows⟩

theorem waitWhileHeld_spec (step reads : Nat) (hlast : last ≠ some .ready) (start : List SendEvent) :
    Logged.Triple (· = start) (waitWhileHeld engine kit io args step reads last)
      fun r log => WaitSaw engine kit args start last r.1 log := by
  induction reads generalizing last start with
  | zero =>
    rw [waitWhileHeld]
    refine (lookHeld_spec start).bind fun state => ?_
    rintro log ⟨pre, rfl, hquiet, hunknown, hshows⟩
    split
    · exact ⟨pre, rfl, hquiet, by simp⟩
    split
    · rename_i hready
      exact ⟨pre, rfl, hquiet, fun _ => .inr (hshows (.inl hready))⟩
    refine ⟨pre, rfl, hquiet, fun hstate => ?_⟩
    cases state with
    | none =>
      rcases hstate with h | h
      · exact absurd (Option.getD_eq_iff.mp h |>.resolve_right (by simp)) hlast
      · exact .inl (Option.getD_eq_iff.mp h |>.resolve_right (by simp))
    | some state => exact .inr (hshows (hstate.imp (congrArg some) (congrArg some)))
  | succ reads ih =>
    rw [waitWhileHeld]
    refine (lookHeld_spec start).bind fun state => ?_
    rintro log ⟨pre, rfl, hquiet, hunknown, hshows⟩
    split
    · exact ⟨pre, rfl, hquiet, by simp⟩
    split
    · rename_i hready
      exact ⟨pre, rfl, hquiet, fun _ => .inr (hshows (.inl hready))⟩
    rename_i hgone hready
    have hnext : state.or last ≠ some .ready := by
      cases state with
      | none => exact hlast
      | some state => exact hready
    dsimp only
    refine ((sleep_spec step (start ++ pre)).bind
      (R := fun (r : HeldState × Nat) log => WaitSaw engine kit args start last r.1 log)
      fun _ => ?_) _ rfl
    rintro log rfl
    rw [List.append_assoc]
    refine WaitSaw.extend (hquiet.append (.cons rfl .nil)) (fun hheld => ?_) (ih hnext _ _ rfl)
    rw [List.any_append, Bool.or_eq_true]
    cases state with
    | none => exact .inl hheld
    | some state => exact .inr (.inl (hshows (.inr hheld)))

/-! ### Pressing submit -/

variable {keys : Option (List String)}

theorem submitOnly_spec (start : List SendEvent) : Logged.Triple (· = start) (submitOnly io keys) fun outcome log =>
      log = start ++ [.submit keys] ∧ (outcome = .sent ∨ typedUnsubmitted outcome = true) := by
  have hpress : Logged.Triple (· = start) (Logged.perform io.submit fun _ => .submit keys)
      fun _ log => log = start ++ [.submit keys] := Logged.Triple.perform fun log hlog => by rw [hlog]
  refine hpress.bind fun result => ?_
  rintro log rfl
  cases result with
  | ok => exact ⟨rfl, .inl rfl⟩
  | failed | threw => exact ⟨rfl, .inr rfl⟩

theorem each_submit (h : Logged.Each (Allowed engine kit args) log)
    (hseen : seenSinceWrite engine kit args log = true) :
    Logged.Each (Allowed engine kit args) (log ++ [.submit keys]) :=
  Logged.each_concat.mpr ⟨h, fun _ => hseen, fun htype => by cases htype⟩

theorem heldPresses_spec (step left : Nat) (pressed : Bool) (reads : Nat) :
    Logged.Triple (Logged.Each (Allowed engine kit args)) (heldPresses engine kit io args step left pressed reads)
      fun _ => Logged.Each (Allowed engine kit args) := by
  induction left generalizing pressed reads with
  | zero => exact Logged.Triple.pure fun _ h => h
  | succ left ih =>
    refine Logged.Triple.of_forall fun start hstart => ?_
    refine (waitWhileHeld_spec step reads (by simp) start).bind fun ⟨state, reads⟩ => ?_
    rintro log ⟨polls, rfl, hquiet, hstate⟩
    have hkept := hquiet.each_iff.mpr hstart
    dsimp only
    split
    · exact hkept
    · exact hkept
    split
    · exact hkept
    · rename_i hgone hunknown _
      have hpress : state = .ready ∨ state = .held := by
        cases state with
        | ready => exact .inl rfl
        | held => exact .inr rfl
        | gone => exact (hgone rfl).elim
        | unknown => exact (hunknown rfl).elim
      have hshown : polls.any (showsSend engine kit args) = true := (hstate hpress).resolve_left (by simp)
      have hseen : seenSinceWrite engine kit args (start ++ polls) = true := by
        rw [hquiet.seenSinceWrite, hshown, Bool.true_or]
      refine ((submitOnly_spec (start ++ polls)).bind
        (R := fun _ => Logged.Each (Allowed engine kit args)) fun _ => ?_) _ rfl
      rintro log ⟨rfl, -⟩
      refine ((submitClearedDraft_spec io.pollAttempts true _).bind
        (R := fun _ => Logged.Each (Allowed engine kit args)) fun cleared => ?_) _ rfl
      rintro log ⟨more, rfl, hmore, -, -⟩
      split
      · exact hmore.each_iff.mpr (each_submit hkept hseen)
      · exact ih true reads _ (hmore.each_iff.mpr (each_submit hkept hseen))

theorem finishHeldSubmit_spec :
    Logged.Triple (Logged.Each (Allowed engine kit args)) (finishHeldSubmit engine kit io args)
      fun _ => Logged.Each (Allowed engine kit args) :=
  heldPresses_spec _ _ _ _

theorem Unpressed.confirmed (h : Unpressed log) : Confirmed log := by
  intro before keys after hlog _
  have hsubmit : (SendEvent.submit keys).isSubmit = false := h _ (by simp [hlog])
  cases hsubmit

theorem confirmed_iff (h : Unpressed log) :
    Confirmed (log ++ .submit keys :: more) ↔ ∃ screen, SendEvent.read (some screen) ∈ more := by
  constructor
  · intro hconfirmed
    exact hconfirmed log keys more rfl h
  · intro hread before keys' after hlog hbefore
    rcases List.append_eq_append_iff.mp hlog with ⟨mid, hmid, htail⟩ | ⟨mid, hmid, htail⟩
    · cases mid with
      | nil =>
        obtain ⟨-, rfl⟩ := List.cons.inj htail
        exact hread
      | cons e mid =>
        obtain ⟨rfl, -⟩ := List.cons.inj htail
        cases hbefore (.submit keys) (by simp [hmid])
    · cases mid with
      | nil =>
        obtain ⟨-, rfl⟩ := List.cons.inj htail
        exact hread
      | cons e mid =>
        obtain ⟨rfl, -⟩ := List.cons.inj htail
        cases h (.submit keys') (by simp [hmid])

theorem judged_rescue {rescue : Option (List String)} (hheld : kit.submitHeld.isSome = false)
    (hstart : Unpressed start) (hkept : Logged.Each (Allowed engine kit args) (start ++ [.submit keys]))
    (hquiet : Quiet polls)
    (hshown : ∀ screen, .read (some screen) ∈ polls → showsSend engine kit args (.read (some screen)) = true) :
    Judged engine kit args (start ++ [.submit keys] ++ polls ++ [.submit rescue]) := by
  have hpolls := hquiet.each_iff.mpr hkept
  have hseen : seenSinceWrite engine kit args (start ++ [.submit keys] ++ polls) =
      polls.any (showsSend engine kit args) := by
    rw [hquiet.seenSinceWrite, seenSinceWrite_concat_write rfl, Bool.or_false]
  have hlog : start ++ [.submit keys] ++ polls ++ [.submit rescue] =
      start ++ .submit keys :: (polls ++ [.submit rescue]) := by simp
  unfold Judged
  rw [hheld, or_iff_right Bool.false_ne_true, Logged.each_concat, and_iff_right hpolls, hlog, confirmed_iff hstart]
  constructor
  · rintro ⟨hsubmit, -⟩
    obtain ⟨e, he, hshows⟩ := List.any_eq_true.mp (hseen ▸ hsubmit rfl)
    cases e with
    | read screen =>
      cases screen with
      | some screen => exact ⟨screen, List.mem_append_left _ he⟩
      | none => cases hshows
    | _ => cases hshows
  · rintro ⟨screen, hscreen⟩
    have hread : SendEvent.read (some screen) ∈ polls := by simpa using hscreen
    refine ⟨fun _ => hseen.trans (List.any_eq_true.mpr ⟨_, hread, hshown screen hread⟩), ?_⟩
    exact fun htype => by cases htype

theorem finishSubmit_spec : Logged.Triple (fun log => Logged.Each (Allowed engine kit args) log ∧ Unpressed log ∧
        seenSinceWrite engine kit args log = true)
      (finishSubmit engine kit io args) fun _ => Judged engine kit args := by
  refine Logged.Triple.of_forall fun start ⟨hstart, hunpressed, hseen⟩ => ?_
  unfold finishSubmit
  split
  · rename_i hheld
    rintro log rfl
    exact iff_of_true (finishHeldSubmit_spec log hstart) (.inl hheld)
  · rename_i hheld
    have hfalse : kit.submitHeld.isSome = false := by simpa using hheld
    refine (submitOnly_spec start).bind fun first => ?_
    rintro log ⟨rfl, hfirst⟩
    have hpressed : Logged.Each (Allowed engine kit args) (start ++ [.submit kit.submitKeys]) :=
      each_submit hstart hseen
    split
    · rcases hfirst with h | h <;> cases h
    refine ((submitClearedDraft_spec io.pollAttempts true _).bind
      (R := fun _ => Judged engine kit args) fun cleared => ?_) _ rfl
    rintro log ⟨polls, rfl, hquiet, hcleared, hshown⟩
    split
    · rename_i hc
      obtain ⟨screen, hscreen⟩ := hcleared hc
      refine iff_of_true (hquiet.each_iff.mpr hpressed) (.inr ?_)
      rw [Logged.pure_apply, List.append_assoc, List.singleton_append]
      exact (confirmed_iff hunpressed).mpr ⟨screen, hscreen⟩
    · rename_i hc
      have hrescue : Judged engine kit args
          (start ++ [.submit kit.submitKeys] ++ polls ++ [.submit (some ["Enter"])]) :=
        judged_rescue hfalse hunpressed hpressed hquiet (hshown (by simpa using hc))
      refine ((submitOnly_spec _).bind (R := fun _ => Judged engine kit args) fun rescue => ?_) _ rfl
      rintro log ⟨rfl, -⟩
      split
      · exact hrescue
      split <;> exact hrescue

/-! ### The whole send -/

theorem Unpressed.judged (h : Unpressed log) (hkept : Logged.Each (Allowed engine kit args) log) :
    Judged engine kit args log :=
  iff_of_true hkept (.inr h.confirmed)

theorem Unpressed.append (h : Unpressed log) (hquiet : Quiet polls) : Unpressed (log ++ polls) := by
  intro e he
  rcases List.mem_append.mp he with he | he
  · exact h e he
  · have hwrite := hquiet e he
    cases e <;> simp_all [SendEvent.isWrite, SendEvent.isSubmit]

theorem verify_spec (attempts : Nat) (first : Bool) (lastSeen : Option String) :
    Logged.Triple (fun log => Logged.Each (Allowed engine kit args) log ∧ Unpressed log)
      (verify engine kit io args attempts first lastSeen) fun _ => Judged engine kit args := by
  induction attempts generalizing first lastSeen with
  | zero =>
    rintro log ⟨hkept, hunpressed⟩
    unfold verify
    split <;> exact hunpressed.judged hkept
  | succ attempts ih =>
    refine Logged.Triple.of_forall fun start ⟨hstart, hunpressed⟩ => ?_
    refine polled fun answer polls hquiet hsleeps => ?_
    have hone : Quiet (polls ++ [.read answer]) := hquiet.append (.cons rfl .nil)
    have hkept := hone.each_iff.mpr hstart
    cases answer with
    | none => exact (ih false lastSeen).pre fun log hlog => hlog ▸ ⟨hkept, hunpressed.append hone⟩
    | some screen =>
      dsimp only
      split
      · rename_i hshows
        refine finishSubmit_spec.pre fun log hlog => hlog ▸ ⟨hkept, hunpressed.append hone, ?_⟩
        rw [hone.seenSinceWrite]
        simp [showsSend, hshows]
      · exact (ih false _).pre fun log hlog => hlog ▸ ⟨hkept, hunpressed.append hone⟩

/-- Nothing was typed and no submit key was pressed yet. -/
def Untouched (log : List SendEvent) : Prop := ∀ e ∈ log, e.isSubmit = false ∧ e.isType = false

theorem Untouched.concat (h : Untouched log) (he : e.isSubmit = false ∧ e.isType = false) :
    Untouched (log ++ [e]) := by
  intro e' he'
  rcases List.mem_append.mp he' with he' | he'
  · exact h e' he'
  · exact List.mem_singleton.mp he' ▸ he

theorem Untouched.each (h : Untouched log) : Logged.Each (Allowed engine kit args) log := by
  intro before e after hlog
  have he := h e (by simp [hlog])
  exact ⟨fun hsubmit => by simp [he.1] at hsubmit, fun htype => by simp [he.2] at htype⟩

theorem Untouched.unpressed (h : Untouched log) : Unpressed log :=
  fun e he => (h e he).1

theorem typeAndSubmit_spec :
    Logged.Triple Untouched (typeAndSubmit engine kit io args) fun _ => Judged engine kit args := by
  have htype : ∀ paste, Logged.Triple Untouched (Logged.perform io.type fun _ => .type args.text paste) fun _ log =>
        Logged.Each (Allowed engine kit args) log ∧ Unpressed log := by
    intro paste
    refine Logged.Triple.perform fun log h => ⟨Logged.each_concat.mpr ⟨h.each, ?_⟩, ?_⟩
    · refine ⟨fun hsubmit => ?_, fun _ e he => (h e he).2⟩
      simp [SendEvent.isSubmit] at hsubmit
    · intro e he
      rcases List.mem_append.mp he with he | he
      · exact (h e he).1
      · exact List.mem_singleton.mp he ▸ rfl
  refine (htype _).bind fun result => ?_
  cases result with
  | ok => exact verify_spec io.pollAttempts true none
  | failed | threw => exact Logged.Triple.pure fun log h => h.2.judged h.1

theorem readScreen_untouched : Logged.Triple Untouched (readScreen io) fun _ => Untouched :=
  Logged.Triple.perform fun _ h => h.concat ⟨rfl, rfl⟩

theorem preflight_spec : Logged.Triple Untouched (preflight engine kit io args) fun _ => Untouched := by
  unfold preflight
  split
  · exact Logged.Triple.pure fun _ h => h
  · refine readScreen_untouched.bind fun answer => ?_
    cases answer with
    | none => exact Logged.Triple.pure fun _ h => h
    | some screen =>
      dsimp only
      split
      · split
        · exact Logged.Triple.pure fun _ h => h
        split <;> exact Logged.Triple.pure fun _ h => h
      · split <;> exact Logged.Triple.pure fun _ h => h

theorem runPreType_spec (seen : ComposerSeen) :
    Logged.Triple Untouched (runPreType engine kit io args seen) fun _ => Untouched := by
  unfold runPreType
  split
  · exact Logged.Triple.pure fun _ h => h
  · rename_i onComposerSeen _
    have hseen : Logged.Triple Untouched
        (Logged.perform (onComposerSeen seen) fun _ => .composerSeen seen) fun _ => Untouched :=
      Logged.Triple.perform fun _ h => h.concat ⟨rfl, rfl⟩
    refine hseen.bind fun result => ?_
    split
    · exact Logged.Triple.pure fun _ h => h
    · exact Logged.Triple.pure fun _ h => h
    · exact Logged.Triple.pure fun _ h => h
    · refine readScreen_untouched.bind fun answer => ?_
      intro log h
      repeat' split
      all_goals exact h

/-- Whatever the screens and the answers, a send types its text once at most and presses submit only on
a read since its last write that showed the text, exactly when its kit can say "held" or some read
after its first press succeeds. -/
theorem runGuardedSend_allowed_iff {Lines : Type} (engine : Engine Lines) (kit : ComposerKit Lines)
    (io : GuardedSendIo) (args : GuardedSendArgs) :
    Logged.Each (Allowed engine kit args) (runGuardedSend engine io args (some kit) []).2 ↔
      kit.submitHeld.isSome = true ∨ Confirmed (runGuardedSend engine io args (some kit) []).2 := by
  have hsend : Logged.Triple Untouched (runGuardedSend engine io args (some kit))
      fun _ => Judged engine kit args := by
    unfold runGuardedSend
    dsimp only
    split
    · have hshot : Logged.Triple Untouched (Logged.perform io.oneShot fun _ => .oneShot args.text)
          fun _ => Untouched := Logged.Triple.perform fun _ h => h.concat ⟨rfl, rfl⟩
      refine hshot.bind fun result => ?_
      cases result <;> exact Logged.Triple.pure fun _ h => h.unpressed.judged h.each
    · refine preflight_spec.bind fun decided => ?_
      cases decided with
      | refuse outcome => exact Logged.Triple.pure fun _ h => h.unpressed.judged h.each
      | blind => exact typeAndSubmit_spec
      | seen seen =>
        refine (runPreType_spec seen).bind fun refused => ?_
        cases refused with
        | some outcome => exact Logged.Triple.pure fun _ h => h.unpressed.judged h.each
        | none => exact typeAndSubmit_spec
  exact hsend [] fun _ he => absurd he List.not_mem_nil

end

def boxKit : ComposerKit String where
  extractInputDraft := some
  composerReady := some fun _ => true

def boxEngine : Engine String where
  parseLines := id
  detectNoEchoPrompt := fun _ => none
  graphemes := none

/-- A pane that can be read until a submit key is pressed, and not after. -/
def lostIo : GuardedSendIo where
  read := fun log => if log.any (·.isSubmit) then none else some "run the tests"
  type := fun _ => .ok
  submit := fun _ => .ok
  oneShot := fun _ => .ok
  pollAttempts := 2
  pollDelayMs := 350

/-- When every read after the first press throws, the rescue Enter goes out blind. -/
theorem runGuardedSend_presses_blind :
    ¬ ∀ (Lines : Type) (engine : Engine Lines) (kit : ComposerKit Lines) (io : GuardedSendIo)
      (args : GuardedSendArgs), kit.replyOneShot = false →
      Logged.Each (Allowed engine kit args) (runGuardedSend engine io args (some kit) []).2 := by
  intro h
  have hlog : (runGuardedSend boxEngine lostIo { text := "run the tests" } (some boxKit) []).2 =
      [.read (some "run the tests"), .type "run the tests" false, .read (some "run the tests"),
        .submit none, .read none, .sleep 350, .read none] ++ [.submit (some ["Enter"])] := by decide
  have hsubmit := (h String boxEngine boxKit lostIo { text := "run the tests" } rfl _ _ [] hlog).1 rfl
  revert hsubmit
  decide

end Sightr
