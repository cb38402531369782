import Sightr.Lib.Logged

/-!
# Dialog recipes

The closed-loop recipes of `shared/harness/dialog-recipes.ts` for a checkbox dialog, over the model and
the comparators of `shared/harness/multi-select-model.ts`. A recipe reads the screen, sends one key, and
reads again; the caller's `read` and `send` answer as they like.
-/

namespace Sightr

/-! ### The model of a checkbox dialog -/

structure MultiSelectOption where
  n : Int
  label : String
  checked : Bool
  deriving DecidableEq

inductive MultiPointer
  | advance | chat | option | other
  deriving DecidableEq

structure WizardStepChip where
  label : String
  answered : Bool
  current : Bool
  deriving DecidableEq

/-- How toggle and submit are keyed; a dialog without one is keyed by digits and the walk to Submit. -/
inductive MultiSelectRecipe
  | tabSpaceEnter | pointerSpaceS
  deriving DecidableEq

structure CheckboxModel where
  question : String
  options : List MultiSelectOption
  pointer : Option MultiPointer := none
  steps : Option (List WizardStepChip) := none
  advanceLabel : String
  recipe : Option MultiSelectRecipe := none
  parked : Bool := false
  focusedN : Option Int := none
  signature : String
  deriving DecidableEq

inductive MultiSelectModel
  | checkbox (model : CheckboxModel)
  | review (signature : String)
  deriving DecidableEq

def sameSteps (a b : CheckboxModel) : Bool :=
  match a.steps, b.steps with
  | some as, some bs =>
    as.length == bs.length && (as.zip bs).all fun (s, t) =>
      s.label == t.label && s.answered == t.answered && s.current == t.current
  | none, none => true
  | _, _ => false

/-- The dialog's identity for the polls: blind to the pointer, not to the boxes. -/
def multiSelectIdentity : MultiSelectModel → MultiSelectModel → Bool
  | .checkbox a, .checkbox b =>
    a.signature == b.signature && sameSteps a b && a.advanceLabel == b.advanceLabel &&
      a.recipe == b.recipe && a.question == b.question && a.options.length == b.options.length &&
      (a.options.zip b.options).all fun (o, p) => o.label == p.label && o.checked == p.checked
  -- The signature is a review's whole identity.
  | .review a, .review b => a == b
  | _, _ => false

def checkedOf : MultiSelectModel → List Bool
  | .checkbox m => m.options.map (·.checked)
  | .review _ => []

/-- The steps of `base`, the current one's answered mark taken from `m`. -/
def stepsOf (base m : CheckboxModel) : Option (List WizardStepChip) :=
  match base.steps, m.steps with
  | some bs, some ms =>
    if bs.length = ms.length then
      some (bs.zipWith (fun s t => if s.current then { s with answered := t.answered } else s) ms)
    else base.steps
  | _, _ => base.steps

def withChecked (options : List MultiSelectOption) (checked : List Bool) : List MultiSelectOption :=
  options.mapIdx fun i o => { o with checked := (checked[i]?).getD false }

/-- The same checkbox dialog as `base` with the boxes `checked`: the answered mark of the current step may
differ. -/
def sameDialogWithChecked (m base : MultiSelectModel) (checked : List Bool) : Bool :=
  match m, base with
  | .checkbox m, .checkbox base =>
    m.options.length == checked.length &&
      multiSelectIdentity (.checkbox m)
        (.checkbox { base with steps := stepsOf base m, options := withChecked base.options checked })
  | _, _ => false

/-! ### Reads, keys and polls -/

inductive RecipeResult
  | sent | changed
  | error (error : String)
  | threw
  deriving DecidableEq

inductive Key
  | up | down | tab | enter | space | s
  | digit (n : Int)
  deriving DecidableEq

inductive RecipeEvent (M : Type)
  /-- A read: none when it threw, and then none when no dialog of the kind is on screen. -/
  | read (answer : Option (Option M))
  | send (key : Key) (region : Option String) (result : RecipeResult)
  | sleep (ms : Nat)
  deriving DecidableEq

structure RecipeIO (M : Type) where
  read : List (RecipeEvent M) → Option (Option M)
  send : List (RecipeEvent M) → Key → Option String → RecipeResult

def POLL_ATTEMPTS : Nat := 8

def POLL_DELAY_MS : Nat := 350

def NAV_SETTLE_MS : Nat := 250

section

variable {M : Type} (io : RecipeIO M)

namespace RecipeIO

def readModel : Logged (RecipeEvent M) (Option (Option M)) := Logged.perform io.read .read

def sendKey (key : Key) (region : Option String) : Logged (RecipeEvent M) RecipeResult :=
  Logged.perform (fun log => io.send log key region) (.send key region)

end RecipeIO

def pause (ms : Nat) : Logged (RecipeEvent M) Unit := Logged.perform (fun _ => ()) fun _ => .sleep ms

/-- What a poll came to; `ok` has the model that was accepted. -/
inductive PollOutcome (M : Type)
  | ok (landed : M)
  | drifted | timeout

def pollModel (accept identity : M → Bool) :
    (attempts : Nat) → (sawDialog : Bool) → Logged (RecipeEvent M) (PollOutcome M)
  | 0, sawDialog => pure (if sawDialog then .timeout else .drifted)
  | attempts + 1, sawDialog => do
    pause POLL_DELAY_MS
    match ← io.readModel with
    | some (some model) =>
      if accept model then pure (.ok model)
      else if !identity model then pure .drifted
      else pollModel accept identity attempts true
    | _ => pollModel accept identity attempts sawDialog

end

/-! ### The walks -/

/-- A step of a walk: one more key, or the final one. -/
inductive WalkStep
  | move (key : Key)
  | last (key : Key)
  deriving DecidableEq

section

variable (io : RecipeIO MultiSelectModel) (tapped : CheckboxModel)

/-- A read that still shows the tapped dialog, with the recipe the walk is for. -/
def onDialog (accepts : CheckboxModel → Bool) : MultiSelectModel → Option CheckboxModel
  | .checkbox m =>
    if multiSelectIdentity (.checkbox m) (.checkbox tapped) && accepts m then some m else none
  | .review _ => none

/-- The loop the walks share: re-read, then one key per fresh read of the tapped dialog until `step` names
the final one. The first key is bound to the region; `moved` says that some key of this walk went out. -/
def walk (tapped : CheckboxModel) (accepts : CheckboxModel → Bool) (step : Bool → CheckboxModel → WalkStep) :
    (left : Nat) → (moved : Bool) → (bind : Option String) → Logged (RecipeEvent MultiSelectModel) RecipeResult
  | 0, _, _ => pure .changed
  | left + 1, moved, bind => do
    match ← io.readModel with
    | some (some m) =>
      match onDialog tapped accepts m with
      | none => pure .changed
      | some m =>
        match step moved m with
        | .last key => io.sendKey key bind
        | .move key => do
          let result ← io.sendKey key bind
          if result ≠ .sent then pure result
          else do
            pause NAV_SETTLE_MS
            walk tapped accepts step left true none
    -- A redraw hid the tail, or the read failed: re-read without a key.
    | _ => do
      pause NAV_SETTLE_MS
      walk tapped accepts step left moved bind

def advanceStep (_moved : Bool) (m : CheckboxModel) : WalkStep :=
  if m.pointer = some .advance then .last .enter
  else .move (if m.pointer = some .chat then .up else .down)

def multiSelectAdvanceRecipe (region : Option String) : Logged (RecipeEvent MultiSelectModel) RecipeResult :=
  walk io tapped (fun _ => true) advanceStep (tapped.options.length + 6) false region

def tabSpaceToggleStep (n : Int) (_moved : Bool) (m : CheckboxModel) : WalkStep :=
  if m.focusedN = some n then .last .space
  else .move (if m.focusedN.isNone then .up else .tab)

/-- Grok's toggle: Tab to option `n`, then Space; a parked card gets one Tab first. -/
def tabSpaceToggleRecipe (n : Int) (region : Option String) : Logged (RecipeEvent MultiSelectModel) RecipeResult :=
  let toggle := walk io tapped (·.recipe == some .tabSpaceEnter) (tabSpaceToggleStep n)
    (tapped.options.length * 2 + 4) false
  if tapped.recipe ≠ some .tabSpaceEnter then pure .changed
  else if tapped.parked then do
    let result ← io.sendKey .tab region
    if result ≠ .sent then pure result
    else do
      pause NAV_SETTLE_MS
      toggle none
  else toggle region

/-- Cursor's walk: one arrow per fresh read until the final key. -/
def pointerWalkRecipe (step : CheckboxModel → WalkStep) (region : Option String) :
    Logged (RecipeEvent MultiSelectModel) RecipeResult :=
  if tapped.recipe ≠ some .pointerSpaceS then pure .changed
  else walk io tapped (·.recipe == some .pointerSpaceS) (fun _ => step) (tapped.options.length + 4) false region

/-- To option `n`, then Space; the row without a number is the bottom one. -/
def cursorToggleStep (n : Int) (m : CheckboxModel) : WalkStep :=
  match m.focusedN with
  | none => .move .up
  | some focused => if focused = n then .last .space else .move (if n < focused then .up else .down)

/-- `s` types into the row without a number, so step off it first. -/
def cursorSubmitStep (m : CheckboxModel) : WalkStep :=
  if m.focusedN.isNone then .move .up else .last .s

def tabSpaceSubmitStep (moved : Bool) (m : CheckboxModel) : WalkStep :=
  if m.parked && !moved then .move .tab else .last .enter

/-- Grok's submit: Enter from anywhere; a parked card gets Tab first. -/
def tabSpaceSubmitRecipe (region : Option String) : Logged (RecipeEvent MultiSelectModel) RecipeResult :=
  if tapped.recipe ≠ some .tabSpaceEnter then pure .changed
  else walk io tapped (fun _ => true) tabSpaceSubmitStep 4 false region

/-! ### The whole answer -/

/-- One toggle of option `n`, in the harness's own way. -/
def toggleRecipe (before : CheckboxModel) (n : Int) (bind : Option String) :
    Logged (RecipeEvent MultiSelectModel) RecipeResult :=
  match before.recipe with
  | some .tabSpaceEnter => tabSpaceToggleRecipe io before n bind
  | some .pointerSpaceS => pointerWalkRecipe io before (cursorToggleStep n) bind
  | none => io.sendKey (.digit n) bind

def submitRecipe (current : CheckboxModel) (bind : Option String) :
    Logged (RecipeEvent MultiSelectModel) RecipeResult :=
  match current.recipe with
  | some .tabSpaceEnter => tabSpaceSubmitRecipe io current bind
  | some .pointerSpaceS => pointerWalkRecipe io current cursorSubmitStep bind
  | none => multiSelectAdvanceRecipe io current bind

/-- The options from `i` on, whose wanted boxes are `rest`, and then the submit. -/
def applyFrom (current : MultiSelectModel) (bind : Option String) (i : Nat) :
    (rest : List Bool) → Logged (RecipeEvent MultiSelectModel) RecipeResult
  | [] =>
    match current with
    | .review _ => pure .changed
    | .checkbox current => submitRecipe io current bind
  | wanted :: rest =>
    match current with
    | .review _ => pure .changed
    | .checkbox before =>
      match before.options[i]? with
      -- `undefined` has no `checked`.
      | none => pure .threw
      | some option =>
        if option.checked = wanted then applyFrom current bind (i + 1) rest
        else do
          let beforeChecked := checkedOf current
          let expected := beforeChecked.mapIdx fun j c => if j = i then !c else c
          let toggled ← toggleRecipe io before option.n bind
          if toggled ≠ .sent then pure toggled
          else do
            match ← pollModel io (fun m => sameDialogWithChecked m current expected)
                (fun m => sameDialogWithChecked m current beforeChecked) POLL_ATTEMPTS false with
            | .ok landed => applyFrom landed none (i + 1) rest
            | _ => pure .changed

/-- Bring a checkbox step to the `wanted` set, then advance it. -/
def multiSelectApplyRecipe (tapped : MultiSelectModel) (wanted : List Bool) (region : Option String) :
    Logged (RecipeEvent MultiSelectModel) RecipeResult :=
  match tapped with
  | .review _ => pure .changed
  | .checkbox model =>
    if wanted.length ≠ model.options.length then pure .changed
    else applyFrom io tapped region 0 wanted

end

end Sightr
