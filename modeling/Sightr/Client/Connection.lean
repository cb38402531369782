import Mathlib.Data.Rat.Floor
import Sightr.Lib.Runs
import Sightr.Lib.Table

/-!
# One resilient connection

`createConnection` of `web2/src/stream/connection.ts`. The page has the EventSources that are open, the timers that
are armed, and the fetches of probes on their way; each of their events, each call, and each event of the page
comes at any time. A timer that was cleared does not fire, and an aborted fetch still answers or is rejected at
some time.
-/

namespace Sightr.Client

open Keyed (Table)

/-! ### Delays -/

def BACKOFF_STEPS_MS : List Int := [1000, 2000, 4000, 8000]
def BACKOFF_CAP_MS : Int := 15000
def JITTER : ℚ := 1 / 5
def WAKE_COALESCE_MS : Int := 1000
def BLOCKED_RETRY_MS : Int := 60000

def backoffBase (attempt : Nat) : Int := BACKOFF_STEPS_MS[attempt]?.getD BACKOFF_CAP_MS

structure RandomValue where
  value : ℚ
  nonneg : 0 ≤ value
  lt_one : value < 1

def jittered (base : Int) (random : RandomValue) : Int := ⌊base * (1 - JITTER + 2 * JITTER * random.value) + 1 / 2⌋

theorem jittered_le (attempt : Nat) (random : RandomValue) :
    5 * jittered (backoffBase attempt) random ≤ 6 * backoffBase attempt := by
  obtain ⟨m, hm, hpos⟩ : ∃ m : Int, backoffBase attempt = 5 * m ∧ 0 < m := by
    rcases attempt with _ | _ | _ | _ | n
    · exact ⟨200, rfl, by norm_num⟩
    · exact ⟨400, rfl, by norm_num⟩
    · exact ⟨800, rfl, by norm_num⟩
    · exact ⟨1600, rfl, by norm_num⟩
    · exact ⟨3000, rfl, by norm_num⟩
  have hlt : jittered (backoffBase attempt) random < 6 * m + 1 := by
    rw [jittered, hm, Int.floor_lt, JITTER]
    push_cast
    have hpos' : (0 : ℚ) < m := by exact_mod_cast hpos
    nlinarith [random.lt_one]
  omega

/-! ### The connection -/

/-- What has happened, with the calls of the caller's functions. -/
inductive Happening
  | started
  | reconnected
  | stopped
  | firstFrame
  | frame
  | down
  /-- A probe ended that was the latest, with a refusal or without. -/
  | reported (refusal : Bool)
  | blocked
  | gone
  | scheduled (delay : Int)
  deriving DecidableEq

structure RetryTimer where
  id : Nat
  delay : Int
  deriving DecidableEq

/-- A probe's fetch that has not ended, or the body it waits for. -/
structure ProbeFetch where
  number : Nat
  aborted : Bool := false
  reading : Bool := false
  deriving DecidableEq

structure Connection where
  /-- Does the caller handle a missing thread (`onGone`)? -/
  handlesGone : Bool
  running : Bool
  source : Option Nat
  heard : Bool
  attempt : Nat
  blocked : Bool
  watchdog : Option Nat
  retry : Option Nat
  probe : Option Nat
  lastWakeAt : Option Int
  /-- The page's side: the EventSources not closed, the timers armed, and the probes on their way. -/
  openSources : List Nat
  watchdogs : List Nat
  retries : List RetryTimer
  probeTimers : List Nat
  fetches : Table ProbeFetch.number
  /-- How many sources were opened, timers armed, and probes started. -/
  opened : Nat
  armed : Nat
  probed : Nat
  history : List Happening

namespace Connection

def create (handlesGone : Bool) : Connection where
  handlesGone
  running := false
  source := none
  heard := false
  attempt := 0
  blocked := false
  watchdog := none
  retry := none
  probe := none
  lastWakeAt := none
  openSources := []
  watchdogs := []
  retries := []
  probeTimers := []
  fetches := .empty
  opened := 0
  armed := 0
  probed := 0
  history := []

variable (c : Connection)

def note (h : Happening) : Connection := { c with history := h :: c.history }

def clearWatchdog : Connection := { c with watchdogs := c.watchdogs.filter fun id => c.watchdog ≠ some id }

def clearRetry : Connection := { c with retries := c.retries.filter fun t => c.retry ≠ some t.id, retry := none }

variable (number : Nat)

def abortFetch : Connection :=
  match c.fetches.find? number with
  | none => c
  | some p => { c with fetches := c.fetches.set { p with aborted := true } }

def abortProbe : Connection :=
  match c.probe with
  | none => c
  | some number => c.abortFetch number

def armWatchdog : Connection :=
  let c := c.clearWatchdog
  { c with watchdogs := c.watchdogs ++ [c.armed], watchdog := some c.armed, armed := c.armed + 1 }

def beat : Connection :=
  let c := if c.heard then c
    else ({ c with heard := true, attempt := 0, blocked := false } : Connection).note .firstFrame
  (c.note .frame).armWatchdog

def openSource : Connection :=
  let c := c.clearRetry
  ({ c with
    openSources := c.openSources ++ [c.opened]
    source := some c.opened
    opened := c.opened + 1
    heard := false } : Connection).armWatchdog

def close : Connection :=
  let c := { c.clearWatchdog with watchdog := none }
  match c.source with
  | none => c
  | some number => { c with openSources := c.openSources.filter (· ≠ number), source := none }

def schedule (random : RandomValue) : Connection :=
  if !c.running then c
  else
    let c := c.clearRetry
    let delay := if c.blocked then BLOCKED_RETRY_MS else jittered (backoffBase c.attempt) random
    ({ c with
      attempt := c.attempt + 1
      retries := c.retries ++ [{ id := c.armed, delay }]
      retry := some c.armed
      armed := c.armed + 1 } : Connection).note (.scheduled delay)

def startProbe : Connection :=
  let c := c.abortProbe
  { c with
    probe := some c.probed
    fetches := c.fetches.set { number := c.probed }
    probeTimers := c.probeTimers ++ [c.probed]
    probed := c.probed + 1 }

def drop (stale : Bool) (random : RandomValue) : Connection :=
  if !c.running then c
  else
    let c := c.close.note .down
    if stale then c.schedule random else c.startProbe

def reconnectNow : Connection :=
  if !c.running then c
  else
    let c := ({ c.clearRetry.abortProbe with probe := none } : Connection).close
    ({ c with attempt := 0 }.note .reconnected).openSource

def stop : Connection :=
  if !c.running then c
  else
    let c := ({ c with running := false } : Connection).clearRetry.abortProbe
    ({ c with probe := none } : Connection).close.note .stopped

def start : Connection :=
  if c.running then c
  else ({ c with running := true, attempt := 0, blocked := false }.note .started).openSource

def wake (now : Int) : Connection :=
  if !c.running then c
  else if c.lastWakeAt.any (now - · < WAKE_COALESCE_MS) then c
  else ({ c with lastWakeAt := some now } : Connection).reconnectNow

/-- The end of a probe: its timeout is cleared, and it is no longer the latest. -/
def endProbe : Connection :=
  { c with
    probeTimers := c.probeTimers.filter (· ≠ number)
    fetches := c.fetches.filter (·.number ≠ number)
    probe := if c.probe = some number then none else c.probe }

def afterProbe (gone : Bool) (random : RandomValue) : Connection :=
  if !c.running then c
  else if gone then c.stop.note .gone
  else if c.source.isNone ∧ c.retry.isNone then c.schedule random
  else c

inductive Answer
  | notFound
  /-- A 503 with a JSON body, which is yet to be read. -/
  | refusing
  | other
  deriving DecidableEq

def answered (p : ProbeFetch) (answer : Answer) (random : RandomValue) : Connection :=
  -- the answer of a probe that was replaced ends it
  if c.probe ≠ some p.number then c.endProbe p.number
  else match answer with
    | .notFound =>
      if c.handlesGone then ((c.note (.reported false)).endProbe p.number).afterProbe true random
      else (({ c with blocked := false }.note (.reported false)).endProbe p.number).afterProbe false random
    | .refusing => { c with fetches := c.fetches.set { p with reading := true } }
    | .other => (({ c with blocked := false }.note (.reported false)).endProbe p.number).afterProbe false random

/-- The body of a 503 is read, or its reading fails: is it a refusal with a blocking code? -/
def bodyRead (refusal : Bool) (random : RandomValue) : Connection :=
  let reported := if c.probe = some number then c.note (.reported refusal) else c
  let c := { reported with blocked := refusal }
  ((if refusal then c.note .blocked else c).endProbe number).afterProbe false random

def rejected (random : RandomValue) : Connection :=
  ((if c.probe = some number then c.note (.reported false) else c).endProbe number).afterProbe false random

inductive Event
  | start
  | stop
  | reconnectNow
  /-- A frame, a `reset` or an error of a source that was opened at some time. -/
  | frame (source : Nat)
  | reset (source : Nat)
  | error (source : Nat) (random : RandomValue)
  | watchdog (id : Nat) (random : RandomValue)
  | retry (id : Nat)
  | probeTimeout (number : Nat)
  /-- The page is visible, restored, or online again. -/
  | wake (now : Int)
  | offline (random : RandomValue)
  | answered (number : Nat) (answer : Answer) (random : RandomValue)
  | bodyRead (number : Nat) (refusal : Bool) (random : RandomValue)
  | rejected (number : Nat) (random : RandomValue)

def step : Event → Option Connection
  | .start => some c.start
  | .stop => some c.stop
  | .reconnectNow => some c.reconnectNow
  | .frame source => if source < c.opened then some (if c.source = some source then c.beat else c) else none
  | .reset source => if source < c.opened then some (if c.source = some source then c.reconnectNow else c) else none
  | .error source random =>
    if source < c.opened then some (if c.source = some source then c.drop false random else c) else none
  | .watchdog id random =>
    if id ∈ c.watchdogs then
      some ({ c with watchdogs := c.watchdogs.filter (· ≠ id), watchdog := none }.drop true random)
    else none
  | .retry id =>
    if id ∈ c.retries.map (·.id) then
      let c := { c with retries := c.retries.filter (·.id ≠ id), retry := none }
      some (if c.running then c.openSource else c)
    else none
  | .probeTimeout number =>
    if number ∈ c.probeTimers then
      some ({ c with probeTimers := c.probeTimers.filter (· ≠ number) }.abortFetch number)
    else none
  | .wake now => some (c.wake now)
  | .offline random => some (if c.running ∧ c.source.isSome then c.drop true random else c)
  | .answered number answer random =>
    match c.fetches.find? number with
    | some p => if p.reading then none else some (c.answered p answer random)
    | none => none
  | .bodyRead number refusal random =>
    match c.fetches.find? number with
    | some p => if p.reading then some (c.bodyRead number refusal random) else none
    | none => none
  | .rejected number random =>
    match c.fetches.find? number with
    | some p => if p.reading then none else some (c.rejected number random)
    | none => none

/-- The results of probes that find the code prepared. The latest probe is rejected only while no refusal is known.
The body for an earlier one comes only if it is no refusal and none is known; and neither its body nor its
rejection comes while the connection has no source and no retry, and so waits for a later probe. -/
def HeedsProbe : Event → Prop
  | .bodyRead number refusal _ => c.probe = some number ∨
      refusal = false ∧ c.blocked = false ∧ (c.running = true → c.source.isSome = true ∨ c.retry.isSome = true)
  | .rejected number _ =>
    if c.probe = some number then c.blocked = false
    else c.running = true → c.source.isSome = true ∨ c.retry.isSome = true
  | _ => True

instance (c : Connection) (e : Event) : Decidable (c.HeedsProbe e) := by
  unfold HeedsProbe
  split <;> infer_instance

/-! ### What every run keeps -/

/-- How many retries were armed since the last first frame, start or reconnect. -/
def retriesSince : List Happening → Nat
  | [] | .firstFrame :: _ | .started :: _ | .reconnected :: _ => 0
  | .scheduled _ :: history => retriesSince history + 1
  | _ :: history => retriesSince history

/-- Did the latest probe report a blocking code, and has no frame arrived since? -/
def refused : List Happening → Bool
  | [] | .started :: _ | .frame :: _ => false
  | .reported refusal :: _ => refusal
  | _ :: history => refused history

/-- A retry waits the long time only after a refusal, and else its backoff with a fifth more at most. -/
def WaitsFor (delay : Int) (history : List Happening) : Prop :=
  delay = BLOCKED_RETRY_MS ∧ refused history = true ∨ 5 * delay ≤ 6 * backoffBase (retriesSince history)

def Waits : List Happening → Prop
  | [] => True
  | .scheduled delay :: history => WaitsFor delay history ∧ Waits history
  | _ :: history => Waits history

/-- The latest probe is on its way, and its timeout is armed or has aborted it. -/
def Probing : Prop := ∃ p ∈ c.fetches.rows, p.number = number ∧ (p.aborted = true ∨ number ∈ c.probeTimers)

/-- The page holds what the connection's variables name. -/
structure Kept (c : Connection) : Prop where
  sources : c.openSources = c.source.toList
  watchdogs : c.watchdogs = c.watchdog.toList
  retries : c.retries.map (·.id) = c.retry.toList
  probing : ∀ number ∈ c.probe, c.Probing number
  numbered : ∀ p ∈ c.fetches.rows, p.number < c.probed
  attempts : c.attempt = retriesSince c.history
  waits : Waits c.history

structure Sound (c : Connection) : Prop where
  kept : c.Kept
  guarded : c.watchdog.isSome = c.source.isSome
  stopped : c.running = false → c.source = none ∧ c.retry = none ∧ c.probe = none
  /-- A source, a retry and a probe exclude one another, and a running connection has one of them. -/
  source_alone : c.source.isSome = true → c.retry = none ∧ c.probe = none
  retry_alone : c.retry.isSome = true → c.probe = none
  alive : c.running = true → c.source.isSome = true ∨ c.retry.isSome = true ∨ c.probe.isSome = true
  refusal : c.running = true → c.blocked = true → refused c.history = true
  heard : c.source.isSome = true → c.heard = true → c.blocked = false

variable {c c' : Connection} {random : RandomValue} {number : Nat}

/-! #### The parts of a step -/

def Happening.plain : Happening → Bool
  | .firstFrame | .started | .reconnected | .scheduled _ => false
  | _ => true

private theorem Kept.note (h : c.Kept) {e : Happening} (he : Happening.plain e = true) : (c.note e).Kept := { h with
  attempts := by
    refine h.attempts.trans ?_
    cases e <;> first | rfl | cases he
  waits := by
    have hwaits := h.waits
    cases e <;> first | exact hwaits | cases he }

theorem filter_toList {α : Type} [DecidableEq α] (o : Option α) : (o.toList.filter fun a => o ≠ some a) = [] := by
  cases o <;> simp

private theorem Kept.clearRetry (h : c.Kept) : c.clearRetry.Kept := { h with
  retries := by
    have hnone : c.retries.filter (fun t => c.retry ≠ some t.id) = [] := by
      rw [List.filter_eq_nil_iff]
      intro t ht
      have hid : t.id ∈ c.retry.toList := h.retries ▸ List.mem_map_of_mem ht
      simpa using hid
    exact congrArg (List.map _) hnone }

private theorem Kept.armWatchdog (h : c.Kept) : c.armWatchdog.Kept := { h with
  watchdogs := by
    show c.watchdogs.filter (fun id => c.watchdog ≠ some id) ++ [c.armed] = [c.armed]
    rw [h.watchdogs, filter_toList]
    rfl }

theorem close_eq (h : c.Kept) : c.close = { c with
    watchdogs := [], watchdog := none, openSources := [], source := none } := by
  have hwatchdogs : c.watchdogs.filter (fun id => c.watchdog ≠ some id) = [] := by rw [h.watchdogs, filter_toList]
  have hsources := h.sources
  unfold Connection.close clearWatchdog
  rw [hwatchdogs]
  cases hsource : c.source with
  | none =>
    rw [hsource] at hsources
    simp only [hsources, Option.toList_none]
  | some n =>
    rw [hsource] at hsources
    simp only [hsources, Option.toList_some, ne_eq, decide_not, List.filter_singleton, decide_true, Bool.not_true,
      Bool.cond_false]

private theorem Kept.close (h : c.Kept) : c.close.Kept := by
  rw [close_eq h]
  exact { h with
    sources := rfl
    watchdogs := rfl
    waits := h.waits }

theorem abortFetch_eq (c : Connection) (number : Nat) : ∃ fetches, c.abortFetch number = { c with fetches } ∧
      (∀ p ∈ fetches.rows, ∃ q ∈ c.fetches.rows, q.number = p.number) ∧
      ∀ q ∈ c.fetches.rows, ∃ p ∈ fetches.rows, p.number = q.number ∧ (q.aborted = true ∨ q.number = number →
        p.aborted = true) := by
  unfold abortFetch
  split
  · rename_i hnone
    refine ⟨c.fetches, rfl, fun p hp => ⟨p, hp, rfl⟩, fun q hq => ⟨q, hq, rfl, ?_⟩⟩
    rintro (haborted | hnumber)
    · exact haborted
    · exact absurd hnumber (Table.find?_eq_none_iff.mp hnone q hq)
  · rename_i q₀ hfound
    obtain ⟨hq₀, hnumber₀⟩ := Table.find?_eq_some_iff.mp hfound
    refine ⟨_, rfl, fun p hp => ?_, fun q hq => ?_⟩
    · rcases Table.mem_set.mp hp with rfl | ⟨hp, -⟩
      · exact ⟨q₀, hq₀, rfl⟩
      · exact ⟨p, hp, rfl⟩
    · by_cases hsame : q.number = q₀.number
      · exact ⟨_, Table.mem_set.mpr (.inl rfl), hsame.symm, fun _ => rfl⟩
      · refine ⟨q, Table.mem_set.mpr (.inr ⟨hq, hsame⟩), rfl, ?_⟩
        rintro (haborted | hnumber)
        · exact haborted
        · exact absurd (hnumber.trans hnumber₀.symm) hsame

section

variable (h : c.Kept)
include h

private theorem Kept.abortFetch (number : Nat) : (c.abortFetch number).Kept := by
  obtain ⟨fetches, heq, hback, hforth⟩ := abortFetch_eq c number
  rw [heq]
  exact { h with
    probing := fun n hn => by
      obtain ⟨q, hq, hqn, htimed⟩ := h.probing n hn
      obtain ⟨p, hp, hpq, haborted⟩ := hforth q hq
      exact ⟨p, hp, hpq.trans hqn, htimed.imp (fun htrue => haborted (.inl htrue)) id⟩
    numbered := fun p hp => by
      obtain ⟨q, hq, hqp⟩ := hback p hp
      exact hqp ▸ h.numbered q hq
    waits := h.waits }

theorem abortProbe_spec : ∃ fetches, ({ c.abortProbe with probe := none } : Connection) =
    { c with fetches, probe := none } ∧ ({ c with fetches, probe := none } : Connection).Kept ∧
      c.abortProbe.Kept := by
  unfold abortProbe
  cases hprobe : c.probe with
  | none =>
    refine ⟨c.fetches, rfl, ?_, h⟩
    exact { h with probing := fun n hn => by cases hn }
  | some n =>
    obtain ⟨fetches, heq, -⟩ := abortFetch_eq c n
    have hkept := h.abortFetch n
    dsimp only
    rw [heq] at hkept ⊢
    exact ⟨fetches, rfl, { hkept with probing := fun m hm => by cases hm }, hkept⟩

section

variable (hrunning : c.running = true)
include hrunning

section

variable (hsource : c.source = none)
include hsource

private theorem Kept.openSource
    (hprobe : c.probe = none) (hrefusal : c.blocked = true → refused c.history = true) : c.openSource.Sound where
  kept := by
    refine Kept.armWatchdog ?_
    have hsources := h.sources
    rw [hsource] at hsources
    exact { h.clearRetry with
      sources := by
        show c.openSources ++ [c.opened] = [c.opened]
        rw [hsources]
        rfl }
  guarded := rfl
  stopped := fun hfalse => absurd (hfalse.symm.trans hrunning) Bool.false_ne_true
  source_alone := fun _ => ⟨rfl, hprobe⟩
  retry_alone := fun _ => hprobe
  alive := fun _ => .inl rfl
  refusal := fun _ => hrefusal
  heard := fun _ hheard => by cases hheard

private theorem Kept.schedule
    (hwatchdog : c.watchdog = none) (hprobe : c.probe = none) (hrefusal : c.blocked = true → refused c.history = true)
    (random : RandomValue) : (c.schedule random).Sound := by
  have hnotStopped : ¬(!c.running) = true := by simp [hrunning]
  rw [Connection.schedule, if_neg hnotStopped]
  dsimp only
  generalize hdelay : (if c.clearRetry.blocked = true then BLOCKED_RETRY_MS
    else jittered (backoffBase c.clearRetry.attempt) random) = delay
  have hwaits : WaitsFor delay c.history := by
    subst hdelay
    split
    · rename_i hblocked
      exact .inl ⟨rfl, hrefusal hblocked⟩
    · rw [show c.clearRetry.attempt = retriesSince c.history from h.attempts]
      exact .inr (jittered_le _ random)
  have hretries : c.clearRetry.retries = [] := by
    have hcleared := h.clearRetry.retries
    rw [show c.clearRetry.retry = none from rfl, Option.toList_none, List.map_eq_nil_iff] at hcleared
    exact hcleared
  constructor
  case kept =>
    exact { h.clearRetry with
      retries := by
        show (c.clearRetry.retries ++ [({ id := c.armed, delay } : RetryTimer)]).map (·.id) = [c.armed]
        rw [hretries]
        rfl
      attempts := congrArg (· + 1) h.attempts
      waits := ⟨hwaits, h.waits⟩ }
  case guarded =>
    show c.watchdog.isSome = c.source.isSome
    rw [hwatchdog, hsource]
  case stopped => exact fun hfalse => absurd (hfalse.symm.trans hrunning) Bool.false_ne_true
  case source_alone =>
    intro hsome
    change c.source.isSome = true at hsome
    rw [hsource] at hsome
    cases hsome
  case retry_alone => exact fun _ => hprobe
  case alive => exact fun _ => .inr (.inl rfl)
  case refusal => exact fun _ => hrefusal
  case heard =>
    intro hsome
    change c.source.isSome = true at hsome
    rw [hsource] at hsome
    cases hsome

private theorem Kept.startProbe (hwatchdog : c.watchdog = none) (hretry : c.retry = none)
    (hrefusal : c.blocked = true → refused c.history = true) : c.startProbe.Sound := by
  obtain ⟨fetches, -, -, hkept⟩ := abortProbe_spec h
  have hsame : c.abortProbe.running = c.running ∧ c.abortProbe.source = c.source ∧
      c.abortProbe.watchdog = c.watchdog ∧
      c.abortProbe.retry = c.retry ∧ c.abortProbe.blocked = c.blocked ∧ c.abortProbe.history = c.history := by
    unfold abortProbe
    split
    · exact ⟨rfl, rfl, rfl, rfl, rfl, rfl⟩
    · obtain ⟨_, heq, -⟩ := abortFetch_eq c _
      rw [heq]
      exact ⟨rfl, rfl, rfl, rfl, rfl, rfl⟩
  obtain ⟨hrunning', hsource', hwatchdog', hretry', hblocked', hhistory'⟩ := hsame
  rw [hrunning] at hrunning'
  rw [hsource] at hsource'
  rw [hwatchdog] at hwatchdog'
  rw [hretry] at hretry'
  unfold Connection.startProbe
  constructor
  case kept =>
    exact { hkept with
      probing := fun n hn => by
        obtain rfl := Option.some.inj hn
        exact ⟨_, Table.mem_set.mpr (.inl rfl), rfl, .inr (List.mem_append_right _ List.mem_cons_self)⟩
      numbered := fun p hp => by
        rcases Table.mem_set.mp hp with rfl | ⟨hp, -⟩
        · exact Nat.lt_succ_self _
        · exact Nat.lt_succ_of_lt (hkept.numbered p hp) }
  case guarded =>
    show c.abortProbe.watchdog.isSome = c.abortProbe.source.isSome
    rw [hwatchdog', hsource']
  case stopped => exact fun hfalse => absurd (hfalse.symm.trans hrunning') Bool.false_ne_true
  case source_alone =>
    intro hsome
    rw [show c.abortProbe.source.isSome = false by rw [hsource']; rfl] at hsome
    cases hsome
  case retry_alone =>
    intro hsome
    rw [show c.abortProbe.retry.isSome = false by rw [hretry']; rfl] at hsome
    cases hsome
  case alive => exact fun _ => .inr (.inr rfl)
  case refusal =>
    intro _ hblocked
    rw [show c.abortProbe.blocked = true from hblocked] at hblocked'
    show refused c.abortProbe.history = true
    rw [hhistory']
    exact hrefusal hblocked'.symm
  case heard =>
    intro hsome
    rw [show c.abortProbe.source.isSome = false by rw [hsource']; rfl] at hsome
    cases hsome

end

end

end

/-! #### The steps -/

private theorem Sound.running_of_source (h : c.Sound) (hsource : c.source.isSome = true) : c.running = true := by
  by_contra hstopped
  rw [(h.stopped (Bool.eq_false_iff.mpr hstopped)).1] at hsource
  cases hsource

theorem Sound.running_of_probe (h : c.Sound) (hprobe : c.probe = some number) :
    c.running = true ∧ c.source = none ∧ c.retry = none := by
  refine ⟨?_, ?_, ?_⟩
  · by_contra hstopped
    cases (h.stopped (Bool.eq_false_iff.mpr hstopped)).2.2.symm.trans hprobe
  · rw [← Option.not_isSome_iff_eq_none]
    exact fun hsome => by cases (h.source_alone hsome).2.symm.trans hprobe
  · rw [← Option.not_isSome_iff_eq_none]
    exact fun hsome => by cases (h.retry_alone hsome).symm.trans hprobe

private theorem Sound.drop (h : c.Sound) (hsource : c.source.isSome = true) (stale : Bool) (random : RandomValue) :
    (c.drop stale random).Sound := by
  have hrunning := h.running_of_source hsource
  obtain ⟨hretry, hprobe⟩ := h.source_alone hsource
  have hnotStopped : ¬(!c.running) = true := by simp [hrunning]
  have hkept := h.kept.close.note (e := .down) rfl
  rw [Connection.drop, if_neg hnotStopped]
  rw [close_eq h.kept] at hkept ⊢
  have hrefusal : c.blocked = true → refused (.down :: c.history) = true := h.refusal hrunning
  dsimp only
  split
  · exact hkept.schedule hrunning rfl rfl hprobe hrefusal random
  · exact hkept.startProbe hrunning rfl rfl hretry hrefusal

theorem Kept.zeroAttempts (h : c.Kept) {e : Happening} (he : e = .reconnected ∨ e = .started) :
    (({ c with attempt := 0 } : Connection).note e).Kept := by
  rcases he with rfl | rfl
  · exact { h with attempts := rfl, waits := h.waits }
  · exact { h with attempts := rfl, waits := h.waits }

private theorem Sound.reconnectNow (h : c.Sound) : c.reconnectNow.Sound := by
  unfold Connection.reconnectNow
  split
  · exact h
  · rename_i hrunning
    rw [Bool.not_eq_true, Bool.not_eq_false'] at hrunning
    obtain ⟨fetches, heq, hkept, -⟩ := abortProbe_spec h.kept.clearRetry
    have hclosed := hkept.close
    rw [heq]
    rw [close_eq hkept] at hclosed ⊢
    exact (hclosed.zeroAttempts (.inl rfl)).openSource hrunning rfl rfl (h.refusal hrunning)

private theorem Kept.stop (h : c.Kept) (hrunning : c.running = true) : c.stop.Sound ∧ c.stop.running = false := by
  have hnotStopped : ¬(!c.running) = true := by simp [hrunning]
  obtain ⟨fetches, heq, hkept, -⟩ := abortProbe_spec (c := ({ c with running := false } : Connection).clearRetry)
    (Kept.clearRetry { h with })
  have hclosed := hkept.close.note (e := .stopped) rfl
  rw [Connection.stop, if_neg hnotStopped]
  dsimp only
  rw [heq]
  rw [close_eq hkept] at hclosed ⊢
  refine ⟨?_, rfl⟩
  exact {
    kept := hclosed
    guarded := rfl
    stopped := fun _ => ⟨rfl, rfl, rfl⟩
    source_alone := fun _ => ⟨rfl, rfl⟩
    retry_alone := fun _ => rfl
    alive := fun hfalse => by cases hfalse
    refusal := fun hfalse => by cases hfalse
    heard := fun hfalse => by cases hfalse }

private theorem Sound.stop (h : c.Sound) : c.stop.Sound ∧ c.stop.running = false := by
  cases hrunning : c.running with
  | true => exact h.kept.stop hrunning
  | false =>
    have hstop : c.stop = c := if_pos (by rw [hrunning]; rfl)
    rw [hstop]
    exact ⟨h, hrunning⟩

private theorem Sound.start (h : c.Sound) : c.start.Sound := by
  unfold Connection.start
  split
  · exact h
  · rename_i hstopped
    obtain ⟨hsource, -, hprobe⟩ := h.stopped (Bool.eq_false_iff.mpr hstopped)
    have hkept : ({ c with running := true, blocked := false } : Connection).Kept := { h.kept with }
    exact (hkept.zeroAttempts (.inr rfl)).openSource rfl hsource hprobe fun hfalse => by cases hfalse

private theorem Sound.beat (h : c.Sound) (hsource : c.source.isSome = true) : c.beat.Sound := by
  have hrunning := h.running_of_source hsource
  obtain ⟨hretry, hprobe⟩ := h.source_alone hsource
  -- with the first frame the backoff starts over
  obtain ⟨d, hd, hkept, hsame, hblocked⟩ : ∃ d, d = (if c.heard then c
      else ({ c with heard := true, attempt := 0, blocked := false } : Connection).note .firstFrame) ∧ d.Kept ∧
      (d.running = c.running ∧ d.source = c.source ∧ d.retry = c.retry ∧ d.probe = c.probe) ∧ d.blocked = false := by
    refine ⟨_, rfl, ?_⟩
    split
    · rename_i hheard
      exact ⟨h.kept, ⟨rfl, rfl, rfl, rfl⟩, h.heard hsource hheard⟩
    · exact ⟨{ h.kept with attempts := rfl, waits := h.kept.waits }, ⟨rfl, rfl, rfl, rfl⟩, rfl⟩
  obtain ⟨hrunning', hsource', hretry', hprobe'⟩ := hsame
  show ((if c.heard then c else _ : Connection).note .frame).armWatchdog.Sound
  rw [← hd]
  exact {
    kept := (hkept.note (e := .frame) rfl).armWatchdog
    guarded := by
      show true = d.source.isSome
      rw [hsource', hsource]
    stopped := fun hfalse => absurd (hfalse.symm.trans (hrunning'.trans hrunning)) Bool.false_ne_true
    source_alone := fun _ => ⟨hretry'.trans hretry, hprobe'.trans hprobe⟩
    retry_alone := fun _ => hprobe'.trans hprobe
    alive := fun _ => .inl (by rw [← hsource, ← hsource']; rfl)
    refusal := fun _ htrue => by cases htrue.symm.trans hblocked
    heard := fun _ _ => hblocked }

/-! #### Probes -/

private theorem Kept.endProbe (h : c.Kept) (number : Nat) : (c.endProbe number).Kept := { h with
  probing := fun n hn => by
    have hother : c.probe = some n ∧ n ≠ number := by
      change (if c.probe = some number then none else c.probe) = some n at hn
      split at hn
      · cases hn
      · rename_i hne
        exact ⟨hn, fun heq => hne (heq ▸ hn)⟩
    obtain ⟨p, hp, hpn, htimed⟩ := h.probing n hother.1
    refine ⟨p, List.mem_filter.mpr ⟨hp, ?_⟩, hpn, htimed.imp id fun hn => List.mem_filter.mpr ⟨hn, ?_⟩⟩
    · simpa [hpn] using hother.2
    · simpa using hother.2
  numbered := fun p hp => h.numbered p (List.mem_of_mem_filter hp) }

theorem Sound.endOther (h : c.Sound) (hother : c.probe ≠ some number) : (c.endProbe number).Sound := by
  have hprobe : (c.endProbe number).probe = c.probe := if_neg hother
  exact { h with
    kept := h.kept.endProbe number
    stopped := fun hfalse => by rw [hprobe]; exact h.stopped hfalse
    source_alone := fun hsome => by rw [hprobe]; exact h.source_alone hsome
    retry_alone := fun hsome => by rw [hprobe]; exact h.retry_alone hsome
    alive := fun htrue => by rw [hprobe]; exact h.alive htrue
    heard := h.heard }

private theorem Sound.report (h : c.Sound) (hprobe : c.probe = some number) (refusal reported : Bool)
    (hreported : refusal = true → reported = true) (random : RandomValue) {d : Connection}
    (hd : d = ({ c with blocked := refusal } : Connection).note (.reported reported) ∨
      d = (({ c with blocked := refusal } : Connection).note (.reported reported)).note .blocked) :
    ((d.endProbe number).afterProbe false random).Sound := by
  obtain ⟨hrunning, hsource, hretry⟩ := h.running_of_probe hprobe
  have hwatchdog : c.watchdog = none := by
    rw [← Option.not_isSome_iff_eq_none, h.guarded, hsource]
    exact Bool.false_ne_true
  have hblocked : ({ c with blocked := refusal } : Connection).Kept := { h.kept with }
  have hnoted := hblocked.note (e := .reported reported) rfl
  have hspec : d.Kept ∧ d.running = true ∧ d.source = none ∧ d.retry = none ∧ d.watchdog = none ∧
      d.probe = some number ∧ d.blocked = refusal ∧ refused d.history = reported := by
    rcases hd with rfl | rfl
    · exact ⟨hnoted, hrunning, hsource, hretry, hwatchdog, hprobe, rfl, rfl⟩
    · exact ⟨hnoted.note rfl, hrunning, hsource, hretry, hwatchdog, hprobe, rfl, rfl⟩
  obtain ⟨hkept, hrunning, hsource, hretry, hwatchdog, hprobe, hblocked, hrefused⟩ := hspec
  have hafter : (d.endProbe number).afterProbe false random = (d.endProbe number).schedule random := by
    have hnotStopped : ¬(!d.running) = true := by simp [hrunning]
    have hidle : d.source.isNone = true ∧ d.retry.isNone = true := by rw [hsource, hretry]; exact ⟨rfl, rfl⟩
    exact (if_neg hnotStopped).trans ((if_neg Bool.false_ne_true).trans (if_pos hidle))
  rw [hafter]
  refine (hkept.endProbe number).schedule hrunning hsource hwatchdog (if_pos hprobe) (fun htrue => ?_) random
  show refused d.history = true
  rw [hrefused]
  exact hreported (hblocked.symm.trans htrue)

private theorem Sound.answered (h : c.Sound) {p : ProbeFetch} (hp : p ∈ c.fetches.rows) (answer : Answer)
    (random : RandomValue) : (c.answered p answer random).Sound := by
  unfold Connection.answered
  split
  · rename_i hother
    exact h.endOther hother
  · rename_i hprobe
    rw [ne_eq, not_not] at hprobe
    obtain ⟨hrunning, hsource, hretry⟩ := h.running_of_probe hprobe
    cases answer with
    | notFound =>
      dsimp only
      split
      · have hnotStopped : ¬(!c.running) = true := by simp [hrunning]
        have hafter : ((c.note (.reported false)).endProbe p.number).afterProbe true random =
            ((c.note (.reported false)).endProbe p.number).stop.note .gone :=
          (if_neg hnotStopped).trans (if_pos rfl)
        have hnoted := h.kept.note (e := .reported false) rfl
        obtain ⟨hsound, hstopped⟩ := (hnoted.endProbe p.number).stop hrunning
        rw [hafter]
        exact { hsound with
          kept := hsound.kept.note rfl
          refusal := fun htrue => absurd (hstopped.symm.trans htrue) Bool.false_ne_true }
      · exact h.report hprobe false false id random (.inl rfl)
    | refusing =>
      exact { h with
        kept := { h.kept with
          probing := fun n hn => by
            obtain ⟨q, hq, hqn, htimed⟩ := h.kept.probing n hn
            by_cases hsame : q.number = p.number
            · rw [c.fetches.eq_of_key_eq hq hp hsame] at hqn htimed
              exact ⟨_, Table.mem_set.mpr (.inl rfl), hqn, htimed⟩
            · exact ⟨q, Table.mem_set.mpr (.inr ⟨hq, hsame⟩), hqn, htimed⟩
          numbered := fun q hq => by
            rcases Table.mem_set.mp hq with rfl | ⟨hq, -⟩
            · exact h.kept.numbered p hp
            · exact h.kept.numbered q hq } }
    | other => exact h.report hprobe false false id random (.inl rfl)

theorem afterProbe_of_busy (hbusy : c.running = true → c.source.isSome = true ∨ c.retry.isSome = true) :
    c.afterProbe false random = c := by
  unfold afterProbe
  split
  · rfl
  · rename_i hrunning
    rw [Bool.not_eq_true, Bool.not_eq_false'] at hrunning
    rw [if_neg Bool.false_ne_true, if_neg]
    rintro ⟨hsource, hretry⟩
    rcases hbusy hrunning with hsome | hsome
    · rw [Option.isNone_iff_eq_none.mp hsource] at hsome
      cases hsome
    · rw [Option.isNone_iff_eq_none.mp hretry] at hsome
      cases hsome

theorem bodyRead_of_other {refusal : Bool} (hother : c.probe ≠ some number)
    (hheeds : c.HeedsProbe (.bodyRead number refusal random)) : c.bodyRead number refusal random =
      c.endProbe number := by
  obtain ⟨rfl, hblocked, hbusy⟩ := hheeds.resolve_left hother
  have hsame : ({ c with blocked := false } : Connection) = c := by rw [← hblocked]
  unfold bodyRead
  rw [if_neg hother]
  dsimp only
  rw [if_neg Bool.false_ne_true, hsame]
  exact afterProbe_of_busy (c := c.endProbe number) hbusy

theorem rejected_of_other (hother : c.probe ≠ some number) (hheeds : c.HeedsProbe (.rejected number random)) :
    c.rejected number random = c.endProbe number := by
  have hbusy : c.running = true → c.source.isSome = true ∨ c.retry.isSome = true := by
    simpa only [HeedsProbe, if_neg hother] using hheeds
  unfold rejected
  rw [if_neg hother]
  exact afterProbe_of_busy (c := c.endProbe number) hbusy

private theorem Sound.bodyRead (h : c.Sound) {refusal : Bool} (hheeds : c.HeedsProbe
      (.bodyRead number refusal random)) :
    (c.bodyRead number refusal random).Sound := by
  by_cases hprobe : c.probe = some number
  · unfold Connection.bodyRead
    rw [if_pos hprobe]
    dsimp only
    split
    · exact h.report hprobe refusal refusal id random (.inr rfl)
    · exact h.report hprobe refusal refusal id random (.inl rfl)
  · rw [bodyRead_of_other hprobe hheeds]
    exact h.endOther hprobe

private theorem Sound.rejected (h : c.Sound) (hheeds : c.HeedsProbe (.rejected number random)) :
    (c.rejected number random).Sound := by
  by_cases hprobe : c.probe = some number
  · have hblocked : c.blocked = false := by simpa only [HeedsProbe, if_pos hprobe] using hheeds
    unfold Connection.rejected
    rw [if_pos hprobe]
    refine h.report hprobe false false id random (.inl ?_)
    rw [← hblocked]
  · rw [rejected_of_other hprobe hheeds]
    exact h.endOther hprobe

/-! #### Timers and the page -/

section

variable (h : c.Sound)
include h

theorem Sound.retryFired {id : Nat} (hid : id ∈ c.retries.map (·.id)) :
    ({ c with retries := c.retries.filter (·.id ≠ id), retry := none } : Connection).openSource.Sound ∧
      c.running = true := by
  have hretry : c.retry = some id := by
    rw [h.kept.retries] at hid
    simpa using hid
  have hsome : c.retry.isSome = true := by rw [hretry]; rfl
  have hrunning : c.running = true := by
    by_contra hstopped
    cases (h.stopped (Bool.eq_false_iff.mpr hstopped)).2.1.symm.trans hretry
  have hsource : c.source = none := by
    rw [← Option.not_isSome_iff_eq_none]
    exact fun hsome => by cases (h.source_alone hsome).1.symm.trans hretry
  refine ⟨?_, hrunning⟩
  have hkept : ({ c with retries := c.retries.filter (·.id ≠ id), retry := none } : Connection).Kept := { h.kept with
    retries := by
      rw [Option.toList_none, List.map_eq_nil_iff, List.filter_eq_nil_iff]
      intro t ht
      have hmem : t.id ∈ c.retry.toList := h.kept.retries ▸ List.mem_map_of_mem ht
      rw [hretry] at hmem
      simpa using hmem }
  exact hkept.openSource hrunning hsource (h.retry_alone hsome) (h.refusal hrunning)

theorem Sound.watchdogFired {id : Nat} (hid : id ∈ c.watchdogs) (random : RandomValue) :
    (({ c with watchdogs := c.watchdogs.filter (· ≠ id), watchdog := none } :
      Connection).drop true random).Sound := by
  have hwatchdog : c.watchdog = some id := by
    rw [h.kept.watchdogs] at hid
    simpa using hid
  have hsource : c.source.isSome = true := by
    rw [← h.guarded, hwatchdog]
    rfl
  have hrunning := h.running_of_source hsource
  obtain ⟨hretry, hprobe⟩ := h.source_alone hsource
  have hkept : ({ c with watchdogs := c.watchdogs.filter (· ≠ id), watchdog := none } :
      Connection).Kept := { h.kept with
    watchdogs := by
      rw [h.kept.watchdogs, hwatchdog]
      simp }
  have hclosed := hkept.close.note (e := .down) rfl
  have hnotStopped : ¬(!c.running) = true := by simp [hrunning]
  rw [Connection.drop, if_neg hnotStopped]
  rw [close_eq hkept] at hclosed ⊢
  exact hclosed.schedule hrunning rfl rfl hprobe (h.refusal hrunning) random

private theorem Sound.abortFetch {timers : List Nat} (htimers : ∀ n ∈ c.probeTimers, n ≠ number → n ∈ timers) :
    (({ c with probeTimers := timers } : Connection).abortFetch number).Sound := by
  obtain ⟨fetches, heq, hback, hforth⟩ := abortFetch_eq { c with probeTimers := timers } number
  rw [heq]
  exact { h with
    kept := { h.kept with
      probing := fun n hn => by
        obtain ⟨q, hq, hqn, htimed⟩ := h.kept.probing n hn
        obtain ⟨p, hp, hpq, haborted⟩ := hforth q hq
        refine ⟨p, hp, hpq.trans hqn, ?_⟩
        by_cases hnumber : n = number
        · exact .inl (haborted (.inr (hqn.trans hnumber)))
        · exact htimed.imp (fun htrue => haborted (.inl htrue)) fun hn => htimers n hn hnumber
      numbered := fun p hp => by
        obtain ⟨q, hq, hqp⟩ := hback p hp
        exact hqp ▸ h.kept.numbered q hq } }

private theorem Sound.wake (now : Int) : (c.wake now).Sound := by
  unfold Connection.wake
  split
  · exact h
  · split
    · exact h
    · have hwoken : ({ c with lastWakeAt := some now } : Connection).Sound := { h with kept := { h.kept with } }
      exact hwoken.reconnectNow

theorem Sound.step {e : Event} (hheeds : c.HeedsProbe e) (hstep : c.step e = some c') : c'.Sound := by
  cases e with
  | start =>
    obtain rfl := Option.some.inj hstep
    exact h.start
  | stop =>
    obtain rfl := Option.some.inj hstep
    exact h.stop.1
  | reconnectNow =>
    obtain rfl := Option.some.inj hstep
    exact h.reconnectNow
  | frame source =>
    simp only [Connection.step] at hstep
    split at hstep
    · obtain rfl := Option.some.inj hstep
      split
      · rename_i hsource
        exact h.beat (by rw [hsource]; rfl)
      · exact h
    · cases hstep
  | reset source =>
    simp only [Connection.step] at hstep
    split at hstep
    · obtain rfl := Option.some.inj hstep
      split
      · exact h.reconnectNow
      · exact h
    · cases hstep
  | error source random =>
    simp only [Connection.step] at hstep
    split at hstep
    · obtain rfl := Option.some.inj hstep
      split
      · rename_i hsource
        exact h.drop (by rw [hsource]; rfl) false random
      · exact h
    · cases hstep
  | watchdog id random =>
    simp only [Connection.step] at hstep
    split at hstep
    · rename_i hid
      obtain rfl := Option.some.inj hstep
      exact h.watchdogFired hid random
    · cases hstep
  | retry id =>
    simp only [Connection.step] at hstep
    split at hstep
    · rename_i hid
      obtain ⟨hsound, hrunning⟩ := h.retryFired hid
      rw [if_pos hrunning] at hstep
      obtain rfl := Option.some.inj hstep
      exact hsound
    · cases hstep
  | probeTimeout number =>
    simp only [Connection.step] at hstep
    split at hstep
    · obtain rfl := Option.some.inj hstep
      exact h.abortFetch fun n hn hne => List.mem_filter.mpr ⟨hn, decide_eq_true hne⟩
    · cases hstep
  | wake now =>
    obtain rfl := Option.some.inj hstep
    exact h.wake now
  | offline random =>
    obtain rfl := Option.some.inj hstep
    split
    · rename_i hboth
      exact h.drop hboth.2 true random
    · exact h
  | answered number answer random =>
    simp only [Connection.step] at hstep
    split at hstep
    · rename_i p hfound
      split at hstep
      · cases hstep
      · obtain rfl := Option.some.inj hstep
        exact h.answered (Table.mem_of_find? hfound) answer random
    · cases hstep
  | bodyRead number refusal random =>
    simp only [Connection.step] at hstep
    split at hstep
    · split at hstep
      · obtain rfl := Option.some.inj hstep
        exact h.bodyRead hheeds
      · cases hstep
    · cases hstep
  | rejected number random =>
    simp only [Connection.step] at hstep
    split at hstep
    · split at hstep
      · cases hstep
      · obtain rfl := Option.some.inj hstep
        exact h.rejected hheeds
    · cases hstep

end

private theorem Sound.create (handlesGone : Bool) : (create handlesGone).Sound where
  kept := {
    sources := rfl
    watchdogs := rfl
    retries := rfl
    probing := fun _ hn => by cases hn
    numbered := fun _ hp => by cases hp
    attempts := rfl
    waits := trivial }
  guarded := rfl
  stopped := fun _ => ⟨rfl, rfl, rfl⟩
  source_alone := fun hfalse => by cases hfalse
  retry_alone := fun hfalse => by cases hfalse
  alive := fun hfalse => by cases hfalse
  refusal := fun hfalse => by cases hfalse
  heard := fun hfalse => by cases hfalse

/-! ### The connection -/

/-- A source is open with the watchdog armed, or a retry is armed, or a probe is on its way with its timeout. -/
def Alive (c : Connection) : Prop :=
  (∃ source watchdog, c.source = some source ∧ c.openSources = [source] ∧ c.watchdogs = [watchdog]) ∨
    (∃ retry, c.retries = [retry]) ∨ ∃ number ∈ c.probe, c.Probing number

theorem Sound.isAlive (h : c.Sound) (hrunning : c.running = true) : c.Alive := by
  rcases h.alive hrunning with hsome | hsome | hsome
  · obtain ⟨source, hsource⟩ := Option.isSome_iff_exists.mp hsome
    rw [← h.guarded] at hsome
    obtain ⟨watchdog, hwatchdog⟩ := Option.isSome_iff_exists.mp hsome
    exact .inl ⟨source, watchdog, hsource, by rw [h.kept.sources, hsource]; rfl,
      by rw [h.kept.watchdogs, hwatchdog]; rfl⟩
  · obtain ⟨retry, hretry⟩ := Option.isSome_iff_exists.mp hsome
    have hone : c.retries.length = 1 := by
      rw [← List.length_map (·.id), h.kept.retries, hretry]
      rfl
    exact .inr (.inl (List.length_eq_one_iff.mp hone))
  · obtain ⟨number, hprobe⟩ := Option.isSome_iff_exists.mp hsome
    exact .inr (.inr ⟨number, hprobe, h.kept.probing number hprobe⟩)

private theorem Sound.closed (h : c.Sound) (hstopped : c.running = false) :
    c.openSources = [] ∧ c.retries = [] ∧ c.watchdogs = [] := by
  obtain ⟨hsource, hretry, -⟩ := h.stopped hstopped
  have hwatchdog : c.watchdog = none := by
    rw [← Option.not_isSome_iff_eq_none, h.guarded, hsource]
    exact Bool.false_ne_true
  have hretries := h.kept.retries
  rw [hretry, Option.toList_none, List.map_eq_nil_iff] at hretries
  exact ⟨by rw [h.kept.sources, hsource]; rfl, hretries, by rw [h.kept.watchdogs, hwatchdog]; rfl⟩

theorem length_toList_le {α : Type} (o : Option α) : o.toList.length ≤ 1 := by
  cases o <;> simp

theorem afterProbe_of_stopped (hstopped : c.running = false) (gone : Bool) :
    c.afterProbe gone random = c := if_pos (by rw [hstopped]; rfl)

theorem Sound.staysStopped (h : c.Sound) (hstopped : c.running = false) {e : Event} (he : e ≠ .start)
    (hstep : c.step e = some c') : c'.running = false ∧ c'.openSources = [] := by
  obtain ⟨hopen, hretries, hwatchdogs⟩ := h.closed hstopped
  obtain ⟨hsource, hretry, hprobe⟩ := h.stopped hstopped
  have hsame : c.running = false ∧ c.openSources = [] := ⟨hstopped, hopen⟩
  have hnot : (!c.running) = true := by rw [hstopped]; rfl
  cases e with
  | start => exact absurd rfl he
  | stop =>
    obtain rfl := Option.some.inj hstep
    rw [show c.stop = c from if_pos hnot]
    exact hsame
  | reconnectNow =>
    obtain rfl := Option.some.inj hstep
    rw [show c.reconnectNow = c from if_pos hnot]
    exact hsame
  | frame source =>
    simp only [Connection.step, hsource, reduceCtorEq, if_false, Option.ite_none_right_eq_some] at hstep
    exact Option.some.inj hstep.2 ▸ hsame
  | reset source =>
    simp only [Connection.step, hsource, reduceCtorEq, if_false, Option.ite_none_right_eq_some] at hstep
    exact Option.some.inj hstep.2 ▸ hsame
  | error source random =>
    simp only [Connection.step, hsource, reduceCtorEq, if_false, Option.ite_none_right_eq_some] at hstep
    exact Option.some.inj hstep.2 ▸ hsame
  | watchdog id random =>
    simp only [Connection.step, hwatchdogs, List.not_mem_nil, if_false] at hstep
    cases hstep
  | retry id =>
    simp only [Connection.step, hretries, List.map_nil, List.not_mem_nil, if_false] at hstep
    cases hstep
  | probeTimeout number =>
    simp only [Connection.step, Option.ite_none_right_eq_some] at hstep
    obtain rfl := Option.some.inj hstep.2
    obtain ⟨fetches, heq, -⟩ := abortFetch_eq { c with probeTimers := c.probeTimers.filter (· ≠ number) } number
    rw [heq]
    exact hsame
  | wake now =>
    obtain rfl := Option.some.inj hstep
    rw [show c.wake now = c from if_pos hnot]
    exact hsame
  | offline random =>
    simp only [Connection.step, hstopped, Bool.false_eq_true, false_and, if_false] at hstep
    exact Option.some.inj hstep ▸ hsame
  | answered number answer random =>
    simp only [Connection.step] at hstep
    split at hstep
    · rename_i p _
      split at hstep
      · cases hstep
      · obtain rfl := Option.some.inj hstep
        have hother : c.probe ≠ some p.number := by rw [hprobe]; simp
        rw [show c.answered p answer random = c.endProbe p.number from if_pos hother]
        exact hsame
    · cases hstep
  | bodyRead number refusal random =>
    simp only [Connection.step] at hstep
    split at hstep
    · split at hstep
      · obtain rfl := Option.some.inj hstep
        have hother : c.probe ≠ some number := by rw [hprobe]; simp
        unfold Connection.bodyRead
        rw [if_neg hother, afterProbe_of_stopped]
        · split <;> exact hsame
        · split <;> exact hstopped
      · cases hstep
    · cases hstep
  | rejected number random =>
    simp only [Connection.step] at hstep
    split at hstep
    · split at hstep
      · cases hstep
      · obtain rfl := Option.some.inj hstep
        have hother : c.probe ≠ some number := by rw [hprobe]; simp
        unfold Connection.rejected
        rw [if_neg hother, afterProbe_of_stopped (c := c.endProbe number) hstopped]
        exact hsame
    · cases hstep

theorem waits_of_append {later earlier : List Happening} {delay : Int}
    (h : Waits (later ++ .scheduled delay :: earlier)) : WaitsFor delay earlier := by
  induction later with
  | nil => exact h.1
  | cons e later ih =>
    refine ih ?_
    cases e <;> first | exact h.2 | exact h

def Event.resultOf : Event → Option Nat
  | .answered number _ _ | .bodyRead number _ _ | .rejected number _ => some number
  | _ => none

def Event.source : Event → Option Nat
  | .frame source | .reset source | .error source _ => some source
  | _ => none

theorem step_of_replaced {e : Event} {source : Nat} (he : e.source = some source) (hother : c.source ≠ some source)
    (hstep : c.step e = some c') : c' = c := by
  cases e with
  | frame n | reset n | error n random =>
    obtain rfl := Option.some.inj he
    simp only [Connection.step, hother, if_false, Option.ite_none_right_eq_some] at hstep
    exact (Option.some.inj hstep.2).symm
  | _ => cases he

theorem step_of_earlier {e : Event} (he : e.resultOf = some number) (hother : c.probe ≠ some number)
    (hheeds : c.HeedsProbe e) (hstep : c.step e = some c') : c' = c.endProbe number := by
  cases e with
  | answered n answer random =>
    obtain rfl := Option.some.inj he
    simp only [Connection.step] at hstep
    split at hstep
    · rename_i p hfound
      have hp : p.number = n := Table.key_of_find? hfound
      split at hstep
      · cases hstep
      · rw [← Option.some.inj hstep, ← hp]
        exact if_pos (hp ▸ hother)
    · cases hstep
  | bodyRead n refusal random =>
    obtain rfl := Option.some.inj he
    simp only [Connection.step] at hstep
    split at hstep
    · split at hstep
      · rw [← Option.some.inj hstep]
        exact bodyRead_of_other hother hheeds
      · cases hstep
    · cases hstep
  | rejected n random =>
    obtain rfl := Option.some.inj he
    simp only [Connection.step] at hstep
    split at hstep
    · split at hstep
      · cases hstep
      · rw [← Option.some.inj hstep]
        exact rejected_of_other hother hheeds
    · cases hstep
  | _ => cases he

/-- In every run whose probe results find the code prepared: one source, one retry and one watchdog are there at
most; a running connection has a source with its watchdog, a retry, or a probe with its timeout; the events of a
replaced source change nothing, and the results of a probe that is not the latest end that probe and change nothing
else; a stopped connection has nothing open, and opens nothing before it is started; and every retry was armed for
the long time only after the latest probe's refusal, with no frame since, and else for its backoff with a fifth
more at most. -/
theorem never_wedged {handlesGone : Bool} (h : Runs.Run step HeedsProbe (create handlesGone) c) :
    (c.openSources.length ≤ 1 ∧ c.retries.length ≤ 1 ∧ c.watchdogs.length ≤ 1) ∧
    (c.running = true → c.Alive) ∧
    (∀ e source c', e.source = some source → c.source ≠ some source → c.step e = some c' → c' = c) ∧
    (∀ e number c', e.resultOf = some number → c.probe ≠ some number → c.HeedsProbe e → c.step e = some c' →
      ∃ probeTimers fetches, c' = { c with probeTimers, fetches }) ∧
    (c.running = false → (c.openSources = [] ∧ c.retries = [] ∧ c.watchdogs = []) ∧
      ∀ e c', e ≠ .start → c.step e = some c' → c'.running = false ∧ c'.openSources = []) ∧
    ∀ later delay earlier, c.history = later ++ .scheduled delay :: earlier → WaitsFor delay earlier := by
  have hsound := Runs.Run.invariant (P := Sound) (fun _ _ _ hm hheeds hstep => hm.step hheeds hstep) h
    (Sound.create handlesGone)
  refine ⟨⟨?_, ?_, ?_⟩, hsound.isAlive, fun e source c' he hother hstep => step_of_replaced he hother hstep,
    fun e number c' he hother hheeds hstep => ?_, fun hstopped => ⟨hsound.closed hstopped,
      fun e c' he hstep => hsound.staysStopped hstopped he hstep⟩, fun later delay earlier heq => ?_⟩
  · rw [hsound.kept.sources]
    exact length_toList_le _
  · rw [← List.length_map (·.id), hsound.kept.retries]
    exact length_toList_le _
  · rw [hsound.kept.watchdogs]
    exact length_toList_le _
  · rw [step_of_earlier he hother hheeds hstep]
    exact ⟨_, _, by rw [endProbe, if_neg hother]⟩
  · exact waits_of_append (heq ▸ hsound.kept.waits)

def half : RandomValue where
  value := 1 / 2
  nonneg := by norm_num
  lt_one := by norm_num

/-- A probe finds that the bridge refuses, and the retry waits a minute. -/
theorem never_wedged_refused : ∃ c, Runs.Run step HeedsProbe (create true) c ∧
    c.retries.map (·.delay) = [BLOCKED_RETRY_MS] ∧ c.Alive := by
  have hends : (Runs.exec step HeedsProbe (create true) [.start, .error 0 half, .answered 0 .refusing half,
      .bodyRead 0 true half]).any (fun c => c.running && c.retries.map (·.delay) = [BLOCKED_RETRY_MS]) = true := by
    decide
  obtain ⟨c, hrun, hany⟩ := Runs.exists_run_of_exec hends
  rw [Bool.and_eq_true, decide_eq_true_eq] at hany
  exact ⟨c, hrun, hany.2, (never_wedged hrun).2.1 hany.1⟩

/-- The bridge refuses once; a minute later the network is down, and the probe is rejected. The retry waits another
minute, although the latest probe reported no refusal. -/
theorem rejected_waits_long : ∃ c, Runs.Run step (fun _ _ => True) (create true) c ∧
    ∃ earlier, c.history = .scheduled BLOCKED_RETRY_MS :: earlier ∧ ¬WaitsFor BLOCKED_RETRY_MS earlier := by
  have hends : (Runs.exec step (fun _ _ => True) (create true) [.start, .error 0 half, .answered 0 .refusing half,
      .bodyRead 0 true half, .retry 1, .error 1 half, .rejected 1 half]).any (fun c =>
        c.history.head? = some (.scheduled BLOCKED_RETRY_MS) && !refused c.history.tail &&
          retriesSince c.history.tail = 1) = true := by decide
  obtain ⟨c, hrun, hany⟩ := Runs.exists_run_of_exec hends
  simp only [Bool.and_eq_true, decide_eq_true_eq, Bool.not_eq_true'] at hany
  obtain ⟨⟨hhead, hrefused⟩, hretries⟩ := hany
  refine ⟨c, hrun, c.history.tail, (List.cons_head?_tail hhead).symm, ?_⟩
  rintro (⟨-, hrefused'⟩ | hle)
  · rw [hrefused] at hrefused'
    cases hrefused'
  · rw [hretries] at hle
    revert hle
    decide

end Connection

end Sightr.Client
