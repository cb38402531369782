import Sightr.Client.Reducer
import Sightr.Lib.Runs

/-!
# The thread stream of the page

`createThreadStream` of `web2/src/stream/thread-stream.ts` over its connection. A snapshot may come gzipped; its
decode ends at some later time, in any order with other decodes, and the events behind it wait for it. Each call
of `open` has its own flags, and a drop of the connection starts a new generation of them.
-/

namespace Sightr.Client

open Keyed (Table)

/-! ### The reducer and the `syncing` flag -/

variable (s : ThreadState)

def ThreadState.withSyncing (syncing : Bool) : ThreadState := { s with syncing }

@[simp] theorem ThreadState.withSyncing_self : s.withSyncing s.syncing = s := rfl

@[simp] theorem ThreadState.withSyncing_withSyncing (a b : Bool) :
    (s.withSyncing a).withSyncing b = s.withSyncing b := rfl

@[simp] theorem ThreadState.syncing_withSyncing (b : Bool) : (s.withSyncing b).syncing = b := rfl

@[simp] theorem ThreadState.sequence_withSyncing (b : Bool) : (s.withSyncing b).sequence = s.sequence := rfl

@[simp] theorem ThreadState.threadId_withSyncing (b : Bool) : (s.withSyncing b).threadId = s.threadId := rfl

@[simp] theorem syncing_applyThreadEvent (event : ThreadEvent) : (applyThreadEvent s event).syncing = s.syncing := by
  unfold applyThreadEvent
  repeat' split
  all_goals first
    | rfl
    | exact (threadEvent_fields s event).2.1

theorem applyThreadEvent_withSyncing (event : ThreadEvent) (b : Bool) :
    applyThreadEvent (s.withSyncing b) event = (applyThreadEvent s event).withSyncing b := by
  have hevent : threadEvent (s.withSyncing b) event = (threadEvent s event).withSyncing b := by
    unfold threadEvent ThreadState.withSyncing
    dsimp only
    repeat' split
    all_goals rfl
  unfold applyThreadEvent
  simp only [ThreadState.sequence_withSyncing, ThreadState.threadId_withSyncing, hevent]
  repeat' split
  all_goals rfl

/-! ### The stream -/

/-- The state a thread is opened with when the cache has none. -/
def emptyThread (threadId : String) : ThreadState where
  threadId
  sequence := 0
  syncing := true
  thread := none
  runs := .empty
  items := .empty
  requests := .empty
  queue := []
  historyCursor := none
  dispatchFailure := none
  queueAutoResume := none

def CACHE_MAX : Nat := 3
def CACHE_TTL_MS : Int := 5 * 60000

structure CachedThread where
  state : ThreadState
  cachedAt : Int

abbrev ThreadCache := List CachedThread

namespace ThreadCache

variable (cache : ThreadCache)

def prune (now : Int) : ThreadCache :=
  let fresh := cache.filter fun c => now - CACHE_TTL_MS ≤ c.cachedAt
  fresh.drop (fresh.length - CACHE_MAX)

def delete (threadId : String) : ThreadCache := cache.filter (·.state.threadId ≠ threadId)

def get? (threadId : String) : Option CachedThread := cache.find? (·.state.threadId = threadId)

def remember (current : ThreadState) (now : Int) : ThreadCache :=
  let cache := cache.prune now
  if current.thread.isNone || current.sequence = 0 then cache
  else
    -- A recalled state that did not advance is as old as it was.
    let cachedAt := match cache.get? current.threadId with
      | some prev => if prev.state.sequence = current.sequence then prev.cachedAt else now
      | none => now
    ThreadCache.prune (cache.delete current.threadId ++ [{ state := current, cachedAt }]) now

/-- The cached state, and the cache with its entry the most recently used. -/
def recallThread (threadId : String) (now : Int) : Option ThreadState × ThreadCache :=
  let cache := cache.prune now
  match cache.get? threadId with
  | none => (none, cache)
  | some entry => (some entry.state, cache.delete threadId ++ [entry])

end ThreadCache

inductive ThreadFrame
  | snapshot (snapshot : ThreadSnapshot) (gz : Bool)
  | event (event : ThreadEvent)
  | synchronized
  | reset

structure ThreadFollower where
  threadId : String
  snapshotApplied : Bool := true
  sawSynchronized : Bool := false
  generation : Nat := 0
  awaitingSnapshot : Bool := false
  buffered : List ThreadEvent := []

structure SnapshotDecode where
  number : Nat
  /-- The call of `open` whose flags it will look at, and the generation it was started in. -/
  stream : Nat
  gen : Nat
  snapshot : ThreadSnapshot
  connection : Nat

/-- The current EventSource, with what it has delivered. -/
structure ThreadSource where
  number : Nat
  /-- The snapshot of the connection once it is decoded, and before it the state the connection resumed from. -/
  base : Option ThreadState
  snapshotSent : Bool := false
  delivered : List ThreadEvent := []
  synchronized : Bool := false

structure ThreadStream where
  /-- The variables of every call of `open`; the latest is `stream`. -/
  followers : Nat → ThreadFollower
  stream : Nat
  openId : Option String
  /-- Is the connection of the open stream running? -/
  running : Bool
  current : Option ThreadState
  missing : Option String
  cache : ThreadCache
  source : Option ThreadSource
  decodes : Table SnapshotDecode.number
  /-- How many connections were opened, and how many decodes started. -/
  connections : Nat
  started : Nat
  /-- The greatest sequence the server has sent on a thread's connections. -/
  newest : String → Nat

namespace ThreadStream

def start : ThreadStream where
  followers := fun _ => { threadId := "" }
  stream := 0
  openId := none
  running := false
  current := none
  missing := none
  cache := []
  source := none
  decodes := .empty
  connections := 0
  started := 0
  newest := fun _ => 0

variable (w : ThreadStream)

def follower : ThreadFollower := w.followers w.stream

variable (i : Nat)

variable (f : ThreadFollower)

def setFollower : ThreadStream :=
  { w with followers := fun j => if j = i then f else w.followers j }

def update (threadId : String) (fn : ThreadState → ThreadState) : ThreadStream :=
  if w.openId = some threadId then
    match w.current with
    | none => w
    | some s => if s.threadId = threadId then { w with current := some (fn s) } else w
  else w

def settle : ThreadStream :=
  let f := w.followers i
  if !f.snapshotApplied || !f.sawSynchronized then w else w.update f.threadId (·.withSyncing false)

def applyEvent (threadId : String) (event : ThreadEvent) : ThreadStream :=
  w.update threadId (applyThreadEvent · event)

/-- `afterSnapshot`: the events that waited for the snapshot. -/
def afterSnapshot : ThreadStream :=
  let f := w.followers i
  f.buffered.foldl (·.applyEvent f.threadId ·) (w.setFollower i { f with awaitingSnapshot := false, buffered := [] })

/-- The end of the wait for a snapshot, whatever came of it. -/
def snapshotDone : ThreadStream :=
  ((w.setFollower i { w.followers i with snapshotApplied := true }).afterSnapshot i).settle i

def applySnapshot (snapshot : ThreadSnapshot) (gen : Nat) : ThreadStream :=
  let f := w.followers i
  if gen ≠ f.generation || w.openId ≠ some f.threadId then w
  else if snapshot.thread.id ≠ f.threadId then w.snapshotDone i
  else ({ w with current := some (threadFromSnapshot snapshot true) } : ThreadStream).snapshotDone i

def decodeFailed (i gen : Nat) : ThreadStream :=
  if gen ≠ (w.followers i).generation then w else w.snapshotDone i

def connect : ThreadStream :=
  { w with
    source := some { number := w.connections, base := w.current }
    connections := w.connections + 1 }

def drop : ThreadStream :=
  let f := w.follower
  ({ w with source := none }.setFollower w.stream { threadId := f.threadId, generation := f.generation + 1 }).update
    f.threadId (·.withSyncing true)

/-- The probe after a drop says that the thread is not there. -/
def gone : ThreadStream :=
  let threadId := w.follower.threadId
  let w := { w with running := false, cache := w.cache.delete threadId }
  if w.openId = some threadId then { w with current := none, missing := some threadId } else w

def remember (w : ThreadStream) (now : Int) : ThreadCache :=
  match w.current with
  | none => w.cache.prune now
  | some s => if some s.threadId ≠ w.openId then w.cache.prune now else w.cache.remember s now

def close (now : Int) : ThreadStream :=
  { w with
    cache := w.remember now
    source := none
    running := false
    openId := none
    current := none
    missing := none }

def openingState (threadId : String) : Option ThreadState → ThreadState
  | some s => { s with syncing := true, dispatchFailure := none }
  | none => emptyThread threadId

def openWith (threadId : String) (s : ThreadState) (cache : ThreadCache) : ThreadStream :=
  { w with
    openId := some threadId
    stream := w.stream + 1
    cache
    running := true
    current := some s }.setFollower (w.stream + 1) { threadId }

def openThread (threadId : String) (now : Int) : ThreadStream :=
  if w.openId = some threadId ∧ w.running then w
  else
    let w := w.close now
    let (cached, cache) := w.cache.recallThread threadId now
    (w.openWith threadId (openingState threadId cached) cache).connect

/-- The server has sent a sequence on the open thread's connection. -/
def sent (sequence : Nat) : ThreadStream :=
  { w with newest := fun t => if t = w.follower.threadId then max (w.newest t) sequence else w.newest t }

def receive (src : ThreadSource) : ThreadFrame → ThreadStream
  | .snapshot snapshot false =>
    ({ w with source := some { src with base := some (threadFromSnapshot snapshot true), snapshotSent := true }
      }.sent snapshot.sequence).applySnapshot w.stream snapshot w.follower.generation
  | .snapshot snapshot true =>
    { w with
      source := some { src with snapshotSent := true }
      decodes := w.decodes.set {
        number := w.started, stream := w.stream, gen := w.follower.generation, snapshot, connection := src.number }
      started := w.started + 1 }.sent snapshot.sequence |>.setFollower w.stream
        { w.follower with snapshotApplied := false, awaitingSnapshot := true, buffered := [] }
  | .event event =>
    let w := { w with source := some { src with delivered := src.delivered ++ [event] } }.sent event.sequence
    if w.follower.awaitingSnapshot then
      w.setFollower w.stream { w.follower with buffered := w.follower.buffered ++ [event] }
    else w.applyEvent w.follower.threadId event
  | .synchronized =>
    ({ w with source := some { src with synchronized := true } }.setFollower w.stream
      { w.follower with sawSynchronized := true }).settle w.stream
  | .reset => w.connect

def ended (d : SnapshotDecode) : ThreadStream := { w with decodes := w.decodes.filter (·.number ≠ d.number) }

/-- The connection that brought the snapshot has it as its base. -/
def rebase (d : SnapshotDecode) : ThreadStream :=
  { w with source := w.source.map fun (src : ThreadSource) =>
      if src.number = d.connection then { src with base := some (threadFromSnapshot d.snapshot true) } else src }

/-- A decode ends, with the snapshot or with a failure. -/
def decoded (d : SnapshotDecode) (ok : Bool) : ThreadStream :=
  if ok then ((w.ended d).rebase d).applySnapshot d.stream d.snapshot d.gen
  else (w.ended d).decodeFailed d.stream d.gen

inductive Event
  | opened (threadId : String) (now : Int)
  | closed (now : Int)
  | frame (frame : ThreadFrame)
  /-- The source fails, falls silent, or the network goes. -/
  | dropped
  | retried
  /-- The page or the network comes back: the connection is replaced at once. -/
  | woken
  | gone
  | decoded (number : Nat) (ok : Bool)

def step : Event → Option ThreadStream
  | .opened threadId now => some (w.openThread threadId now)
  | .closed now => some (w.close now)
  | .frame frame => w.source.map (w.receive · frame)
  | .dropped => if w.source.isSome then some w.drop else none
  | .retried => if w.running ∧ w.source.isNone then some w.connect else none
  | .woken => if w.running then some w.connect else none
  | .gone => if w.running ∧ w.source.isNone then some w.gone else none
  | .decoded number ok => (w.decodes.find? number).map (w.decoded · ok)

/-- A connection's snapshot is its first frame, is of its thread, and is not older than what the thread's
connections have sent. -/
def ServerSends : Event → Prop
  | .frame (.snapshot snapshot _) => ∀ src ∈ w.source,
      src.snapshotSent = false ∧ src.delivered = [] ∧ src.synchronized = false ∧
        snapshot.thread.id = w.follower.threadId ∧ w.newest w.follower.threadId ≤ snapshot.sequence
  | _ => True

instance (w : ThreadStream) (e : Event) : Decidable (w.ServerSends e) := by
  unfold ServerSends
  split <;> infer_instance

/-- A wake or a `reset` replaces a connection only before it has delivered `synchronized` and while no snapshot of
it is decoded; and a decode that an earlier call of `open` waits for ends only while its thread is not open. -/
def KeepsGeneration : Event → Prop
  | .woken | .frame .reset => ∀ src ∈ w.source,
      src.synchronized = false ∧ ∀ d ∈ w.decodes.rows, d.connection ≠ src.number
  | .decoded number _ => ∀ d ∈ w.decodes.find? number,
      d.stream = w.stream ∨ d.gen ≠ (w.followers d.stream).generation ∨
      w.openId ≠ some (w.followers d.stream).threadId
  | _ => True

instance (w : ThreadStream) (e : Event) : Decidable (w.KeepsGeneration e) := by
  unfold KeepsGeneration
  split <;> infer_instance

/-! ### What every run keeps -/

/-- The flags of a call of `open` between two connections, or on one that has delivered nothing that counts yet. -/
structure Rests (f : ThreadFollower) (newest : String → Nat) (s : ThreadState) : Prop where
  threadId : s.threadId = f.threadId
  sequence_le : s.sequence ≤ newest f.threadId
  syncing : s.syncing = true
  applied : f.snapshotApplied = true
  unsynchronized : f.sawSynchronized = false
  awaiting : f.awaitingSnapshot = false
  buffered : f.buffered = []

/-- The open thread between two connections, or on one that has delivered nothing that counts yet. -/
structure Resting (w : ThreadStream) (s : ThreadState) : Prop extends Rests w.follower w.newest s where
  current : w.current = some s
  /-- The decodes of this call of `open` that have not ended are of earlier generations. -/
  outdated : ∀ d ∈ w.decodes.rows, d.stream = w.stream → d.gen ≠ w.follower.generation

/-- The flags of a call of `open` on a connection: what it shows is what the connection delivered, folded over its
base, but for the events that wait for a snapshot. -/
structure Follows (f : ThreadFollower) (newest : String → Nat) (decodes : List SnapshotDecode) (src : ThreadSource)
    (s : ThreadState) : Prop where
  threadId : s.threadId = f.threadId
  sequence_le : s.sequence ≤ newest f.threadId
  synchronized : f.sawSynchronized = src.synchronized
  applied : f.snapshotApplied = !f.awaitingSnapshot
  awaiting : f.awaitingSnapshot = true ↔ ∃ d ∈ decodes, d.connection = src.number
  unsent : src.snapshotSent = false → f.awaitingSnapshot = false
  buffered : f.buffered = if f.awaitingSnapshot then src.delivered else []
  buffered_le : ∀ e ∈ f.buffered, e.sequence ≤ newest f.threadId
  decoding : ∀ d ∈ decodes, d.connection = src.number → d.snapshot.thread.id = f.threadId ∧
    s.sequence ≤ d.snapshot.sequence ∧ d.snapshot.sequence ≤ newest f.threadId
  folded : ∃ b ∈ src.base, s = ThreadState.withSyncing
    ((if f.awaitingSnapshot then [] else src.delivered).foldl applyThreadEvent b) s.syncing
  syncing : s.syncing = false → src.synchronized = true ∧ f.awaitingSnapshot = false

/-- The open thread on a connection. -/
structure Live (w : ThreadStream) (src : ThreadSource) (s : ThreadState) : Prop extends
    Follows w.follower w.newest w.decodes.rows src s where
  current : w.current = some s
  /-- The decodes of this call and generation are those of the connection's snapshots. -/
  mine : ∀ d ∈ w.decodes.rows, d.stream = w.stream ∧ d.gen = w.follower.generation ↔ d.connection = src.number

structure Sound (w : ThreadStream) : Prop where
  source_lt : ∀ src ∈ w.source, src.number < w.connections
  decode_lt : ∀ d ∈ w.decodes.rows, d.connection < w.connections ∧ d.number < w.started
  single : ∀ d ∈ w.decodes.rows, ∀ d' ∈ w.decodes.rows, d.connection = d'.connection → d = d'
  earlier : ∀ d ∈ w.decodes.rows, d.stream ≤ w.stream ∧ d.gen ≤ (w.followers d.stream).generation
  cached : ∀ c ∈ w.cache, c.state.sequence ≤ w.newest c.state.threadId
  stopped : w.running = false → w.source = none ∧ w.current = none
  opened : w.running = true → w.openId = some w.follower.threadId
  /-- After the thread turned out to be missing, no decode of its stream counts. -/
  missing : w.running = false → w.openId.isSome = true →
    ∀ d ∈ w.decodes.rows, d.stream = w.stream → d.gen ≠ w.follower.generation
  resting : w.running = true → w.source = none → ∃ s, w.Resting s
  live : ∀ src ∈ w.source, ∃ s, w.Live src s

variable {w w' : ThreadStream} {src : ThreadSource} {s : ThreadState}

variable {l : List ThreadEvent}

theorem sequence_foldl_le {n : Nat} (hs : s.sequence ≤ n) (hl : ∀ e ∈ l, e.sequence ≤ n) :
    (l.foldl applyThreadEvent s).sequence ≤ n := by
  induction l generalizing s with
  | nil => exact hs
  | cons e l ih =>
    refine ih ?_ fun e' he' => hl e' (List.mem_cons_of_mem e he')
    rcases (sequence_applyThreadEvent s e).2 with h | h
    · exact h ▸ hs
    · exact h ▸ hl e List.mem_cons_self

theorem le_sequence_foldl (s : ThreadState) (l : List ThreadEvent) :
    s.sequence ≤ (l.foldl applyThreadEvent s).sequence := by
  induction l generalizing s with
  | nil => exact le_refl _
  | cons e l ih => exact (sequence_applyThreadEvent s e).1.trans (ih _)

theorem foldl_fields (s : ThreadState) (l : List ThreadEvent) :
    (l.foldl applyThreadEvent s).threadId = s.threadId ∧ (l.foldl applyThreadEvent s).syncing = s.syncing := by
  induction l generalizing s with
  | nil => exact ⟨rfl, rfl⟩
  | cons e l ih =>
    obtain ⟨hthread, hsyncing⟩ := ih (applyThreadEvent s e)
    exact ⟨hthread.trans (threadId_applyThreadEvent s e), hsyncing.trans (syncing_applyThreadEvent s e)⟩

theorem foldl_withSyncing (s : ThreadState) (l : List ThreadEvent) (b : Bool) :
    l.foldl applyThreadEvent (s.withSyncing b) = (l.foldl applyThreadEvent s).withSyncing b := by
  induction l generalizing s with
  | nil => rfl
  | cons e l ih =>
    rw [List.foldl_cons, List.foldl_cons, applyThreadEvent_withSyncing, ih]

/-! #### The store's updates -/

variable {fn : ThreadState → ThreadState}

theorem update_of_open {threadId : String} (hopen : w.openId = some threadId) (hcurrent : w.current = some s)
    (hs : s.threadId = threadId) :
    w.update threadId fn = { w with current := some (fn s) } := by
  rw [update, if_pos hopen]
  simp only [hcurrent, hs, if_true]

theorem update_of_not_open {threadId : String} (hopen : w.openId ≠ some threadId) :
    w.update threadId fn = w := if_neg hopen

theorem foldl_applyEvent {threadId : String} (hopen : w.openId = some threadId)
    (hcurrent : w.current = some s) (hs : s.threadId = threadId) :
    l.foldl (·.applyEvent threadId ·) w = { w with current := some (l.foldl applyThreadEvent s) } := by
  induction l generalizing w s with
  | nil => rw [List.foldl_nil, List.foldl_nil, ← hcurrent]
  | cons e l ih =>
    rw [List.foldl_cons, List.foldl_cons, applyEvent, update_of_open hopen hcurrent hs]
    exact ih hopen rfl ((threadId_applyThreadEvent s e).trans hs)

theorem foldl_applyEvent_not_open {threadId : String} (hopen : w.openId ≠ some threadId) :
    l.foldl (·.applyEvent threadId ·) w = w := by
  induction l generalizing w with
  | nil => rfl
  | cons e l ih =>
    rw [List.foldl_cons, applyEvent, update_of_not_open hopen]
    exact ih hopen

@[simp] theorem followers_setFollower_self : (w.setFollower i f).followers i = f :=
  if_pos rfl

variable {i : Nat}

theorem followers_setFollower_of_ne {j : Nat} (h : j ≠ i) :
    (w.setFollower i f).followers j = w.followers j := if_neg h

@[simp] theorem setFollower_setFollower (i : Nat) (f g : ThreadFollower) :
    (w.setFollower i f).setFollower i g = w.setFollower i g := by
  unfold setFollower
  simp only [ThreadStream.mk.injEq, and_true]
  funext j
  split <;> rfl

@[simp] theorem follower_setFollower : (w.setFollower w.stream f).follower = f :=
  followers_setFollower_self _ _

theorem snapshotDone_eq (hopen : w.openId = some w.follower.threadId) (hcurrent : w.current = some s)
    (hs : s.threadId = w.follower.threadId) :
    w.snapshotDone w.stream = { w.setFollower w.stream { w.follower with
        snapshotApplied := true, awaitingSnapshot := false, buffered := [] } with
      current := some ((w.follower.buffered.foldl applyThreadEvent s).withSyncing
        (s.syncing && !w.follower.sawSynchronized)) } := by
  obtain ⟨hthread, hsyncing⟩ := foldl_fields s w.follower.buffered
  have hafter : (w.setFollower w.stream { w.follower with snapshotApplied := true }).afterSnapshot w.stream =
      { w.setFollower w.stream { w.follower with
          snapshotApplied := true, awaitingSnapshot := false, buffered := [] } with
        current := some (w.follower.buffered.foldl applyThreadEvent s) } := by
    rw [afterSnapshot, followers_setFollower_self, setFollower_setFollower]
    exact foldl_applyEvent hopen hcurrent hs
  show ((w.setFollower w.stream { w.follower with snapshotApplied := true }).afterSnapshot w.stream).settle
    w.stream = _
  rw [hafter]
  unfold settle
  simp only [setFollower, if_true, Bool.not_true, Bool.false_or]
  by_cases hsync : w.follower.sawSynchronized = true
  · simp only [hsync, Bool.not_true, Bool.and_false, Bool.false_eq_true, if_false]
    exact update_of_open hopen rfl (hthread.trans hs)
  · rw [Bool.not_eq_true] at hsync
    simp only [hsync, Bool.not_false, Bool.and_true, if_true, ← hsyncing, ThreadState.withSyncing_self]

theorem snapshotDone_not_open (hopen : w.openId ≠ some (w.followers i).threadId) :
    w.snapshotDone i = w.setFollower i { w.followers i with
      snapshotApplied := true, awaitingSnapshot := false, buffered := [] } := by
  have hafter : (w.setFollower i { w.followers i with snapshotApplied := true }).afterSnapshot i =
      w.setFollower i { w.followers i with snapshotApplied := true, awaitingSnapshot := false, buffered := [] } := by
    rw [afterSnapshot, followers_setFollower_self, setFollower_setFollower]
    exact foldl_applyEvent_not_open hopen
  rw [snapshotDone, hafter, settle, followers_setFollower_self]
  dsimp only
  split
  · rfl
  · exact update_of_not_open hopen

/-! #### Steps of the connection -/

def Forward (w w' : ThreadStream) : Prop := ∀ s ∈ w.current, ∀ s' ∈ w'.current, s.sequence ≤ s'.sequence

theorem Forward.of_current (hcurrent : w'.current = w.current) : Forward w w' := by
  intro s hs s' hs'
  rw [hcurrent, hs] at hs'
  rw [Option.some.inj hs']

theorem Forward.of_eq {s' : ThreadState} (hcurrent : w.current = some s) (hcurrent' : w'.current = some s')
    (hle : s.sequence ≤ s'.sequence) : Forward w w' := by
  intro t ht t' ht'
  obtain rfl := Option.some.inj (ht.symm.trans hcurrent)
  obtain rfl := Option.some.inj (ht'.symm.trans hcurrent')
  exact hle

theorem Forward.of_none (hcurrent : w'.current = none) : Forward w w' := fun _ _ s' hs' => by
  rw [hcurrent] at hs'
  cases hs'

private theorem Sound.shown (h : w.Sound) (hcurrent : w.current = some s) :
    w.running = true ∧ s.threadId = w.follower.threadId ∧ s.sequence ≤ w.newest w.follower.threadId := by
  have hrunning : w.running = true := by
    by_contra hstopped
    rw [(h.stopped (Bool.eq_false_iff.mpr hstopped)).2] at hcurrent
    cases hcurrent
  refine ⟨hrunning, ?_⟩
  cases hsource : w.source with
  | none =>
    obtain ⟨t, ht⟩ := h.resting hrunning hsource
    obtain rfl := Option.some.inj (hcurrent.symm.trans ht.current)
    exact ⟨ht.threadId, ht.sequence_le⟩
  | some src =>
    obtain ⟨t, ht⟩ := h.live src hsource
    obtain rfl := Option.some.inj (hcurrent.symm.trans ht.current)
    exact ⟨ht.threadId, ht.sequence_le⟩

private theorem Sound.running_of_source (h : w.Sound) (hsource : w.source = some src) : w.running = true := by
  by_contra hstopped
  rw [(h.stopped (Bool.eq_false_iff.mpr hstopped)).1] at hsource
  cases hsource

private theorem Sound.connect (h : w.Sound) (hrunning : w.running = true) (hrest : w.Resting s) :
      w.connect.Sound := { h with
  source_lt := fun src hsrc => by
    cases hsrc
    exact Nat.lt_succ_self _
  decode_lt := fun d hd => ⟨Nat.lt_succ_of_lt (h.decode_lt d hd).1, (h.decode_lt d hd).2⟩
  stopped := fun hstopped => absurd (hstopped.symm.trans hrunning) Bool.false_ne_true
  missing := fun hstopped => absurd (hstopped.symm.trans hrunning) Bool.false_ne_true
  resting := fun _ hnone => by cases hnone
  live := fun src hsrc => by
    cases hsrc
    have hold (d : SnapshotDecode) (hd : d ∈ w.decodes.rows) : d.connection ≠ w.connections :=
      ne_of_lt (h.decode_lt d hd).1
    have hawaiting : w.connect.follower.awaitingSnapshot = false := hrest.awaiting
    refine ⟨s, { hrest with
      synchronized := hrest.unsynchronized
      applied := hrest.applied.trans (by rw [hawaiting]; rfl)
      mine := fun d hd => iff_of_false (fun hmine => hrest.outdated d hd hmine.1 hmine.2) (hold d hd)
      awaiting := by
        rw [hawaiting]
        exact iff_of_false Bool.false_ne_true fun ⟨d, hd, hconnection⟩ => hold d hd hconnection
      unsent := fun _ => hawaiting
      buffered := by
        rw [hawaiting]
        exact hrest.buffered
      buffered_le := by
        rw [show w.connect.follower.buffered = [] from hrest.buffered]
        exact fun e he => by cases he
      decoding := fun d hd hconnection => absurd hconnection (hold d hd)
      folded := by
        rw [hawaiting]
        exact ⟨s, hrest.current, (ThreadState.withSyncing_self s).symm⟩
      syncing := fun hsyncing => absurd (hsyncing.symm.trans hrest.syncing) Bool.false_ne_true }⟩ }

private theorem Live.resting (h : w.Live src s) (hsync : src.synchronized = false)
    (hdecodes : ∀ d ∈ w.decodes.rows, d.connection ≠ src.number) : w.Resting s := by
  have hawaiting : w.follower.awaitingSnapshot = false := by
    rw [Bool.eq_false_iff]
    intro htrue
    obtain ⟨d, hd, hconnection⟩ := h.awaiting.mp htrue
    exact hdecodes d hd hconnection
  exact { h with
    syncing := by
      rw [← Bool.not_eq_false]
      intro hfalse
      rw [(h.syncing hfalse).1] at hsync
      cases hsync
    applied := by rw [h.applied, hawaiting]; rfl
    unsynchronized := h.synchronized.trans hsync
    awaiting := hawaiting
    buffered := by rw [h.buffered, hawaiting]; rfl
    outdated := fun d hd hstream hgen => hdecodes d hd ((h.mine d hd).mp ⟨hstream, hgen⟩) }

theorem Sound.reconnect (h : w.Sound) (hrunning : w.running = true)
    (hkeeps : ∀ src ∈ w.source, src.synchronized = false ∧ ∀ d ∈ w.decodes.rows, d.connection ≠ src.number) :
    w.connect.Sound := by
  cases hsource : w.source with
  | none =>
    obtain ⟨s, hs⟩ := h.resting hrunning hsource
    exact h.connect hrunning hs
  | some src =>
    obtain ⟨s, hs⟩ := h.live src hsource
    exact h.connect hrunning (hs.resting (hkeeps src hsource).1 (hkeeps src hsource).2)

private theorem Sound.drop (h : w.Sound) (hsource : w.source = some src) : w.drop.Sound ∧ Forward w w.drop := by
  have hrunning := h.running_of_source hsource
  obtain ⟨s, hs⟩ := h.live src hsource
  have hdrop : w.drop = { ({ w with source := none } : ThreadStream).setFollower w.stream {
      threadId := w.follower.threadId, generation := w.follower.generation + 1 } with
        current := some (s.withSyncing true) } :=
    update_of_open (h.opened hrunning) hs.current hs.threadId
  have hfollower : w.drop.follower =
      { threadId := w.follower.threadId, generation := w.follower.generation + 1 } := by
    rw [hdrop]
    exact if_pos rfl
  have hother (j : Nat) (hj : j ≠ w.stream) : w.drop.followers j = w.followers j := by
    rw [hdrop]
    exact if_neg hj
  have hdecodes : w.drop.decodes = w.decodes := by rw [hdrop]; rfl
  have hstream : w.drop.stream = w.stream := by rw [hdrop]; rfl
  have hrunning' : w.drop.running = true := by rw [hdrop]; exact hrunning
  refine ⟨?_, ?_⟩
  · constructor
    case source_lt => rw [hdrop]; exact fun _ hsrc => by cases hsrc
    case decode_lt => rw [hdrop]; exact h.decode_lt
    case single => rw [hdecodes]; exact h.single
    case earlier =>
      rw [hdecodes, hstream]
      intro d hd
      refine ⟨(h.earlier d hd).1, ?_⟩
      by_cases hown : d.stream = w.stream
      · have hgen := (h.earlier d hd).2
        rw [hown] at hgen ⊢
        rw [← hstream]
        show d.gen ≤ w.drop.follower.generation
        rw [hfollower]
        exact Nat.le_succ_of_le hgen
      · rw [hother _ hown]
        exact (h.earlier d hd).2
    case cached => rw [hdrop]; exact h.cached
    case stopped => rw [hrunning']; exact fun hfalse => by cases hfalse
    case opened =>
      intro _
      rw [hfollower, hdrop]
      exact h.opened hrunning
    case missing => rw [hrunning']; exact fun hfalse => by cases hfalse
    case resting =>
      intro _ _
      refine ⟨s.withSyncing true, ?_, by rw [hdrop], fun d hd hown hgen => ?_⟩
      · rw [hfollower, hdrop]
        exact ⟨hs.threadId, hs.sequence_le, rfl, rfl, rfl, rfl, rfl⟩
      · rw [hdecodes] at hd
        rw [hstream] at hown
        rw [hfollower] at hgen
        have hle := (h.earlier d hd).2
        rw [hown] at hle
        have : d.gen ≤ w.follower.generation := hle
        dsimp only at hgen
        omega
    case live => rw [hdrop]; exact fun _ hsrc => by cases hsrc
  · refine Forward.of_eq hs.current ?_ (show s.sequence ≤ (s.withSyncing true).sequence from le_refl _)
    rw [hdrop]

private theorem Sound.gone (h : w.Sound) (hrunning : w.running = true) (hsource : w.source = none) :
      w.gone.Sound := by
  obtain ⟨s, hs⟩ := h.resting hrunning hsource
  have hgone : w.gone = { w with
      running := false
      cache := w.cache.delete w.follower.threadId
      current := none
      missing := some w.follower.threadId } := if_pos (h.opened hrunning)
  rw [hgone]
  exact { h with
    cached := fun c hc => h.cached c (List.mem_of_mem_filter hc)
    stopped := fun _ => ⟨hsource, rfl⟩
    opened := fun hfalse => absurd hfalse Bool.false_ne_true
    missing := fun _ _ => hs.outdated
    resting := fun hfalse => absurd hfalse Bool.false_ne_true
    live := fun src hsrc => by
      rw [hsource] at hsrc
      cases hsrc }

/-! #### Opening and closing -/

variable {cache : ThreadCache} {now : Int} {c : CachedThread}

theorem mem_prune (hc : c ∈ cache.prune now) : c ∈ cache := List.mem_of_mem_filter (List.mem_of_mem_drop hc)

theorem mem_cache_remember (hc : c ∈ cache.remember s now) : c ∈ cache ∨ c.state = s := by
  unfold ThreadCache.remember at hc
  dsimp only at hc
  split at hc
  · exact .inl (mem_prune hc)
  · rcases List.mem_append.mp (mem_prune hc) with hc | hc
    · exact .inl (mem_prune (List.mem_of_mem_filter hc))
    · rw [List.mem_singleton.mp hc]
      exact .inr rfl

theorem Sound.mem_remember (h : w.Sound) (hc : c ∈ w.remember now) :
    c.state.sequence ≤ w.newest c.state.threadId := by
  unfold remember at hc
  split at hc
  · exact h.cached c (mem_prune hc)
  · rename_i s hcurrent
    split at hc
    · exact h.cached c (mem_prune hc)
    · rcases mem_cache_remember hc with hc | rfl
      · exact h.cached c hc
      · obtain ⟨-, hthread, hle⟩ := h.shown hcurrent
        rw [hthread]
        exact hle

private theorem Sound.close (h : w.Sound) (now : Int) : (w.close now).Sound := { h with
  source_lt := fun _ hsrc => by cases hsrc
  cached := fun _ hc => h.mem_remember hc
  stopped := fun _ => ⟨rfl, rfl⟩
  opened := fun hfalse => absurd hfalse Bool.false_ne_true
  missing := fun _ hopen => by cases hopen
  resting := fun hfalse => absurd hfalse Bool.false_ne_true
  live := fun _ hsrc => by cases hsrc }

theorem mem_recallThread (cache : ThreadCache) (threadId : String) (now : Int) :
    (∀ c ∈ (cache.recallThread threadId now).2, c ∈ cache) ∧
      ∀ t ∈ (cache.recallThread threadId now).1, t.threadId = threadId ∧ ∃ c ∈ cache, c.state = t := by
  unfold ThreadCache.recallThread
  dsimp only
  split
  · exact ⟨fun c hc => mem_prune hc, fun t ht => by cases ht⟩
  · rename_i entry hfound
    have hentry := mem_prune (List.mem_of_find?_eq_some hfound)
    refine ⟨fun c hc => ?_, fun t ht => ?_⟩
    · rcases List.mem_append.mp hc with hc | hc
      · exact mem_prune (List.mem_of_mem_filter hc)
      · rw [List.mem_singleton.mp hc]
        exact hentry
    · cases ht
      have hthread := List.find?_some hfound
      exact ⟨of_decide_eq_true hthread, entry, hentry, rfl⟩

private theorem Sound.openWith (h : w.Sound) (hsource : w.source = none) {threadId : String}
    (hcache : ∀ c ∈ cache, c ∈ w.cache) (hs : s.threadId = threadId) (hsyncing : s.syncing = true)
    (hle : s.sequence ≤ w.newest threadId) :
    (w.openWith threadId s cache).Sound ∧ (w.openWith threadId s cache).Resting s := by
  have hfollower : (w.openWith threadId s cache).follower = { threadId } := if_pos rfl
  have hold {d : SnapshotDecode} (hd : d ∈ w.decodes.rows) : d.stream ≠ w.stream + 1 :=
    ne_of_lt (Nat.lt_succ_of_le (h.earlier d hd).1)
  have hrest : (w.openWith threadId s cache).Resting s := by
    refine ⟨?_, rfl, fun d hd hstream => absurd hstream (hold hd)⟩
    rw [hfollower]
    exact ⟨hs, hle, hsyncing, rfl, rfl, rfl, rfl⟩
  refine ⟨?_, hrest⟩
  constructor
  case source_lt => exact h.source_lt
  case decode_lt => exact h.decode_lt
  case single => exact h.single
  case earlier =>
    intro d hd
    refine ⟨Nat.le_succ_of_le (h.earlier d hd).1, ?_⟩
    rw [show (w.openWith threadId s cache).followers d.stream = w.followers d.stream from if_neg (hold hd)]
    exact (h.earlier d hd).2
  case cached => exact fun c hc => h.cached c (hcache c hc)
  case stopped => exact fun hfalse => by cases hfalse
  case opened =>
    rw [hfollower]
    exact fun _ => rfl
  case missing => exact fun hfalse => by cases hfalse
  case resting => exact fun _ _ => ⟨s, hrest⟩
  case live =>
    intro src hsrc
    cases hsource.symm.trans hsrc

private theorem Sound.openThread (h : w.Sound) (threadId : String) (now : Int) : (w.openThread threadId now).Sound ∧
      ((w.openThread threadId now).openId = w.openId → Forward w (w.openThread threadId now)) := by
  unfold ThreadStream.openThread
  split
  · exact ⟨h, fun _ => Forward.of_current rfl⟩
  · rename_i hnot
    have hclosed := h.close now
    obtain ⟨hcache, hcached⟩ := mem_recallThread (w.close now).cache threadId now
    have hstate : (openingState threadId ((w.close now).cache.recallThread threadId now).1).threadId = threadId ∧
        (openingState threadId ((w.close now).cache.recallThread threadId now).1).syncing = true ∧
        (openingState threadId ((w.close now).cache.recallThread threadId now).1).sequence ≤ w.newest threadId := by
      cases hrecalled : ((w.close now).cache.recallThread threadId now).1 with
      | none => exact ⟨rfl, rfl, Nat.zero_le _⟩
      | some t =>
        obtain ⟨hthread, c, hc, rfl⟩ := hcached t hrecalled
        exact ⟨hthread, rfl, hthread ▸ hclosed.cached c hc⟩
    obtain ⟨hsound, hrest⟩ := hclosed.openWith rfl hcache hstate.1 hstate.2.1 hstate.2.2
    refine ⟨hsound.connect rfl hrest, fun hopen => ?_⟩
    -- the thread that was open was missing
    have hstopped : w.running = false := by
      rw [Bool.eq_false_iff]
      exact fun hrunning => hnot ⟨hopen.symm, hrunning⟩
    intro t ht
    rw [(h.stopped hstopped).2] at ht
    cases ht

/-! #### Frames -/

structure Steady (w w' : ThreadStream) : Prop where
  stream : w'.stream = w.stream
  openId : w'.openId = w.openId
  running : w'.running = w.running
  cache : w'.cache = w.cache
  followers : ∀ j, (w'.followers j).threadId = (w.followers j).threadId ∧
    (w'.followers j).generation = (w.followers j).generation
  decodes : ∀ d ∈ w'.decodes.rows, d ∈ w.decodes.rows
  connections : w'.connections = w.connections
  started : w'.started = w.started
  newest : ∀ t, w.newest t ≤ w'.newest t

theorem Steady.threadId (h : Steady w w') : w'.follower.threadId = w.follower.threadId := by
  rw [follower, h.stream]
  exact (h.followers w.stream).1

theorem Steady.generation (h : Steady w w') : w'.follower.generation = w.follower.generation := by
  rw [follower, h.stream]
  exact (h.followers w.stream).2

private theorem Sound.steady (h : w.Sound) (hsteady : Steady w w')
    (hnumber : ∀ src' ∈ w'.source, ∃ src ∈ w.source, src'.number = src.number)
    (hstopped : w.running = false → w'.source = none ∧ w'.current = none)
    (hresting : w.running = true → w'.source = none → ∃ s, w'.Resting s)
    (hlive : ∀ src' ∈ w'.source, ∃ s, w'.Live src' s) : w'.Sound where
  source_lt := fun src' hsrc' => by
    obtain ⟨src, hsrc, heq⟩ := hnumber src' hsrc'
    rw [heq, hsteady.connections]
    exact h.source_lt src hsrc
  decode_lt := fun d hd => by
    rw [hsteady.connections, hsteady.started]
    exact h.decode_lt d (hsteady.decodes d hd)
  single := fun d hd d' hd' => h.single d (hsteady.decodes d hd) d' (hsteady.decodes d' hd')
  earlier := fun d hd => by
    rw [hsteady.stream, (hsteady.followers d.stream).2]
    exact h.earlier d (hsteady.decodes d hd)
  cached := fun c hc => (h.cached c (hsteady.cache ▸ hc)).trans (hsteady.newest _)
  stopped := fun hfalse => hstopped (hsteady.running ▸ hfalse)
  opened := fun htrue => by
    rw [hsteady.openId, hsteady.threadId]
    exact h.opened (hsteady.running ▸ htrue)
  missing := fun hfalse hopen d hd hstream => by
    rw [hsteady.generation]
    exact h.missing (hsteady.running ▸ hfalse) (hsteady.openId ▸ hopen) d (hsteady.decodes d hd)
      (hstream.trans hsteady.stream)
  resting := fun htrue => hresting (hsteady.running ▸ htrue)
  live := hlive

theorem Sound.steadyLive (h : w.Sound) (hsource : w.source = some src) (hsteady : Steady w w')
    {src' : ThreadSource} (hsource' : w'.source = some src') (hnumber : src'.number = src.number) (hlive :
      w'.Live src' s) :
    w'.Sound := by
  refine h.steady hsteady (fun t ht => ?_) (fun hfalse => ?_) (fun _ hnone => ?_) fun t ht => ?_
  · obtain rfl := Option.some.inj (hsource'.symm.trans ht)
    exact ⟨src, hsource, hnumber⟩
  · exact absurd (hfalse.symm.trans (h.running_of_source hsource)) Bool.false_ne_true
  · cases hsource'.symm.trans hnone
  · obtain rfl := Option.some.inj (hsource'.symm.trans ht)
    exact ⟨s, hlive⟩

theorem newest_le_sent (w : ThreadStream) (sequence : Nat) (t : String) : w.newest t ≤
      (w.sent sequence).newest t := by
  show w.newest t ≤ if t = w.follower.threadId then max (w.newest t) sequence else w.newest t
  split
  · exact le_max_left _ _
  · exact le_refl _

theorem sequence_le_sent (w : ThreadStream) (sequence : Nat) :
    sequence ≤ (w.sent sequence).newest w.follower.threadId := by
  show sequence ≤ if w.follower.threadId = w.follower.threadId then _ else _
  rw [if_pos rfl]
  exact le_max_right _ _

theorem steady_setFollower (hthread : f.threadId = w.follower.threadId)
    (hgen : f.generation = w.follower.generation) (j : Nat) :
    ((w.setFollower w.stream f).followers j).threadId = (w.followers j).threadId ∧
      ((w.setFollower w.stream f).followers j).generation = (w.followers j).generation := by
  by_cases hj : j = w.stream
  · rw [hj, followers_setFollower_self]
    exact ⟨hthread, hgen⟩
  · rw [followers_setFollower_of_ne f hj]
    exact ⟨rfl, rfl⟩

theorem Live.buffer (h : w.Live src s) (hawaiting : w.follower.awaitingSnapshot = true) (event : ThreadEvent) :
    ((({ w with source := some { src with delivered := src.delivered ++ [event] } } : ThreadStream).sent
      event.sequence).setFollower w.stream { w.follower with buffered := w.follower.buffered ++ [event] }).Live
        { src with delivered := src.delivered ++ [event] } s := by
  generalize hw' : (({ w with source := some { src with delivered := src.delivered ++ [event] } } : ThreadStream).sent
      event.sequence).setFollower w.stream { w.follower with buffered := w.follower.buffered ++ [event] } = w'
  have hf : w'.follower = { w.follower with buffered := w.follower.buffered ++ [event] } := by
    subst hw'
    exact if_pos rfl
  have hnewest : w'.newest = (w.sent event.sequence).newest := by subst hw'; rfl
  have hdecodes : w'.decodes = w.decodes := by subst hw'; rfl
  have hstream : w'.stream = w.stream := by subst hw'; rfl
  refine ⟨?_, by subst hw'; exact h.current, by rw [hf, hdecodes, hstream]; exact h.mine⟩
  rw [hf, hnewest, hdecodes]
  exact { h with
    sequence_le := h.sequence_le.trans (newest_le_sent w event.sequence _)
    buffered := by simp only [hawaiting, if_true, h.buffered]
    buffered_le := fun e he => by
      rcases List.mem_append.mp he with he | he
      · exact (h.buffered_le e he).trans (newest_le_sent w event.sequence _)
      · rw [List.mem_singleton.mp he]
        exact sequence_le_sent w event.sequence
    decoding := fun d hd hconnection => by
      obtain ⟨hthread, hle, hsent⟩ := h.decoding d hd hconnection
      exact ⟨hthread, hle, hsent.trans (newest_le_sent w event.sequence _)⟩
    folded := by
      have hfolded := h.folded
      simp only [hawaiting, if_true] at hfolded ⊢
      exact hfolded }

private theorem Live.applyEvent (h : w.Live src s) (hopen : w.openId = some w.follower.threadId)
    (hawaiting : w.follower.awaitingSnapshot = false) (event : ThreadEvent) :
    ((({ w with source := some { src with delivered := src.delivered ++ [event] } } : ThreadStream).sent
      event.sequence).applyEvent w.follower.threadId event) = { w.sent event.sequence with
        source := some { src with delivered := src.delivered ++ [event] }
        current := some (applyThreadEvent s event) } ∧
    ({ w.sent event.sequence with
        source := some { src with delivered := src.delivered ++ [event] }
        current := some (applyThreadEvent s event) } : ThreadStream).Live
        { src with delivered := src.delivered ++ [event] } (applyThreadEvent s event) := by
  refine ⟨update_of_open hopen h.current h.threadId, { h with
    current := rfl
    threadId := (threadId_applyThreadEvent s event).trans h.threadId
    sequence_le := ?_
    buffered := ?_
    buffered_le := fun e he => (h.buffered_le e he).trans (newest_le_sent w event.sequence _)
    decoding := fun d hd hconnection => ?_
    folded := ?_
    syncing := fun hsyncing => h.syncing ((syncing_applyThreadEvent s event).symm.trans hsyncing) }⟩
  · rcases (sequence_applyThreadEvent s event).2 with hseq | hseq
    · exact hseq.trans_le (h.sequence_le.trans (newest_le_sent w event.sequence _))
    · exact hseq.trans_le (sequence_le_sent w event.sequence)
  · show w.follower.buffered = if w.follower.awaitingSnapshot = true then src.delivered ++ [event] else []
    rw [h.buffered, hawaiting]
    rfl
  · have htrue := h.awaiting.mpr ⟨d, hd, hconnection⟩
    rw [hawaiting] at htrue
    cases htrue
  · obtain ⟨b, hb, hfold⟩ := h.folded
    refine ⟨b, hb, ?_⟩
    rw [hawaiting] at hfold
    show _ = ThreadState.withSyncing ((if w.follower.awaitingSnapshot = true then [] else _).foldl _ _) _
    rw [hawaiting]
    simp only [Bool.false_eq_true, if_false] at hfold ⊢
    rw [List.foldl_concat, syncing_applyThreadEvent, ← applyThreadEvent_withSyncing, ← hfold]

theorem Sound.receiveEvent (h : w.Sound) (hsource : w.source = some src) (event : ThreadEvent) :
    (w.receive src (.event event)).Sound ∧ Forward w (w.receive src (.event event)) := by
  obtain ⟨s, hs⟩ := h.live src hsource
  have hopen := h.opened (h.running_of_source hsource)
  unfold receive
  dsimp only
  split
  · rename_i hawaiting
    refine ⟨h.steadyLive hsource ?_ rfl rfl (hs.buffer hawaiting event), Forward.of_current rfl⟩
    exact ⟨rfl, rfl, rfl, rfl, steady_setFollower _ rfl rfl, fun d hd => hd, rfl, rfl,
      newest_le_sent w event.sequence⟩
  · rename_i hawaiting
    obtain ⟨heq, hlive⟩ := hs.applyEvent hopen (Bool.eq_false_iff.mpr hawaiting) event
    refine ⟨?_, ?_⟩
    · refine heq ▸ h.steadyLive hsource ?_ rfl rfl hlive
      exact ⟨rfl, rfl, rfl, rfl, fun _ => ⟨rfl, rfl⟩, fun d hd => hd, rfl, rfl, newest_le_sent w event.sequence⟩
    · exact heq ▸ Forward.of_eq hs.current rfl (sequence_applyThreadEvent s event).1

theorem Sound.receiveSynchronized (h : w.Sound) (hsource : w.source = some src) :
    (w.receive src .synchronized).Sound ∧ Forward w (w.receive src .synchronized) := by
  obtain ⟨s, hs⟩ := h.live src hsource
  have hopen := h.opened (h.running_of_source hsource)
  generalize hw₁ : ({ w with source := some { src with synchronized := true } } : ThreadStream).setFollower w.stream
    { w.follower with sawSynchronized := true } = w₁
  have hf : w₁.follower = { w.follower with sawSynchronized := true } := by
    subst hw₁
    exact if_pos rfl
  have hsteady : Steady w w₁ := by
    subst hw₁
    exact ⟨rfl, rfl, rfl, rfl, steady_setFollower _ rfl rfl, fun d hd => hd, rfl, rfl, fun _ => le_refl _⟩
  have hsource₁ : w₁.source = some { src with synchronized := true } := by subst hw₁; rfl
  have hcurrent₁ : w₁.current = some s := by subst hw₁; exact hs.current
  have hnewest₁ : w₁.newest = w.newest := by subst hw₁; rfl
  have hdecodes₁ : w₁.decodes = w.decodes := by subst hw₁; rfl
  -- with either flag the state is the same fold
  have hlive (syncing : Bool) (hsyncing : syncing = false → w.follower.awaitingSnapshot = false) :
      ({ w₁ with current := some (s.withSyncing syncing) } : ThreadStream).Live { src with synchronized := true }
        (s.withSyncing syncing) := by
    refine ⟨?_, rfl, ?_⟩
    · show Follows w₁.follower w₁.newest w₁.decodes.rows _ _
      rw [hf, hnewest₁, hdecodes₁]
      exact { hs with
        synchronized := rfl
        folded := by
          obtain ⟨b, hb, hfold⟩ := hs.folded
          refine ⟨b, hb, ?_⟩
          rw [hfold, ThreadState.withSyncing_withSyncing]
          rfl
        syncing := fun hfalse => ⟨rfl, hsyncing hfalse⟩ }
    · show ∀ d ∈ w₁.decodes.rows, d.stream = w₁.stream ∧ d.gen = w₁.follower.generation ↔ _
      rw [hf, hdecodes₁, hsteady.stream]
      exact hs.mine
  have hsettled : w₁.settle w.stream =
      { w₁ with current := some (s.withSyncing (s.syncing && !w.follower.snapshotApplied)) } := by
    unfold settle
    rw [← hsteady.stream]
    show (if !w₁.follower.snapshotApplied || !w₁.follower.sawSynchronized then _ else w₁.update
      w₁.follower.threadId _) = _
    rw [hf]
    cases happlied : w.follower.snapshotApplied
    · simp only [Bool.not_false, Bool.not_true, Bool.or_false, if_true, Bool.and_true, ThreadState.withSyncing_self,
        ← hcurrent₁]
    · simp only [Bool.not_true, Bool.or_false, Bool.false_eq_true, if_false, Bool.and_false]
      exact update_of_open (hsteady.openId.trans hopen) hcurrent₁ hs.threadId
  show (({ w with source := some { src with synchronized := true } } : ThreadStream).setFollower w.stream
    { w.follower with sawSynchronized := true } |>.settle w.stream).Sound ∧ Forward w (ThreadStream.settle _ w.stream)
  rw [hw₁, hsettled]
  refine ⟨h.steadyLive hsource ?_ hsource₁ rfl (hlive _ fun hfalse => ?_), Forward.of_eq hs.current rfl (le_refl _)⟩
  · exact ⟨hsteady.stream, hsteady.openId, hsteady.running, hsteady.cache, hsteady.followers, hsteady.decodes,
      hsteady.connections, hsteady.started, hsteady.newest⟩
  · rw [hs.applied, Bool.not_not, Bool.and_eq_false_iff] at hfalse
    rcases hfalse with hfalse | hfalse
    · exact (hs.syncing hfalse).2
    · exact hfalse

/-! #### Snapshots -/

private theorem Live.done {w₀ : ThreadStream} {s₀ : ThreadState} (h : w.Live src s)
    (hopen : w.openId = some w.follower.threadId) (hsteady : Steady w w₀) (hfollower : w₀.follower = w.follower)
    (hcurrent : w₀.current = some s₀) (src₀ : ThreadSource)
    (hsame : src₀.number = src.number ∧ src₀.synchronized = src.synchronized)
    (hwaited : w.follower.buffered = src₀.delivered) (hended : ∀ d ∈ w₀.decodes.rows, d.connection ≠ src.number)
    (hthread : s₀.threadId = w.follower.threadId) (hle : s₀.sequence ≤ w₀.newest w.follower.threadId)
    (hbase : ∃ b ∈ src₀.base, s₀ = b.withSyncing s₀.syncing) (hsyncing : s₀.syncing = false →
      src.synchronized = true) :
    ∃ s', (w₀.snapshotDone w.stream).Live src₀ s' ∧ s₀.sequence ≤ s'.sequence ∧
      Steady w (w₀.snapshotDone w.stream) ∧ (w₀.snapshotDone w.stream).source = w₀.source := by
  have heq := snapshotDone_eq (w := w₀) (s := s₀) (by rw [hsteady.openId, hfollower, hopen]) hcurrent
    (by rw [hfollower, hthread])
  rw [hsteady.stream, hfollower] at heq
  generalize hfold : (w.follower.buffered.foldl applyThreadEvent s₀).withSyncing
    (s₀.syncing && !w.follower.sawSynchronized) = s' at heq
  have hbuffered (e : ThreadEvent) (he : e ∈ w.follower.buffered) : e.sequence ≤ w₀.newest w.follower.threadId :=
    (h.buffered_le e he).trans (hsteady.newest _)
  have hs' : s'.threadId = w.follower.threadId ∧ s'.sequence ≤ w₀.newest w.follower.threadId := by
    subst hfold
    exact ⟨(foldl_fields _ _).1.trans hthread, sequence_foldl_le hle hbuffered⟩
  have hf : (w₀.snapshotDone w.stream).follower = { w.follower with
      snapshotApplied := true, awaitingSnapshot := false, buffered := [] } := by
    rw [heq, follower]
    show (if w₀.stream = w.stream then _ else _) = _
    exact if_pos hsteady.stream
  have hdecodes : (w₀.snapshotDone w.stream).decodes = w₀.decodes := by rw [heq]; rfl
  have hstream : (w₀.snapshotDone w.stream).stream = w.stream := by rw [heq]; exact hsteady.stream
  have hnewest : (w₀.snapshotDone w.stream).newest = w₀.newest := by rw [heq]; rfl
  refine ⟨s', ⟨?_, by rw [heq], ?_⟩, ?_, ?_, ?_⟩
  · rw [hf, hnewest, hdecodes]
    exact { h with
      threadId := hs'.1
      sequence_le := hs'.2
      synchronized := h.synchronized.trans hsame.2.symm
      applied := rfl
      awaiting := by
        rw [hsame.1]
        exact iff_of_false Bool.false_ne_true fun ⟨d, hd, hconnection⟩ => hended d hd hconnection
      unsent := fun _ => rfl
      buffered := rfl
      buffered_le := fun e he => by cases he
      decoding := fun d hd hconnection => absurd (hconnection.trans hsame.1) (hended d hd)
      folded := by
        obtain ⟨b, hb, hs₀⟩ := hbase
        refine ⟨b, hb, ?_⟩
        show s' = ThreadState.withSyncing (src₀.delivered.foldl applyThreadEvent b) s'.syncing
        rw [← hfold, hwaited, ThreadState.syncing_withSyncing]
        conv_lhs => rw [hs₀, foldl_withSyncing]
        rfl
      syncing := by
        rw [← hfold, ThreadState.syncing_withSyncing, Bool.and_eq_false_iff, Bool.not_eq_false', hsame.2]
        rintro (hfalse | htrue)
        · exact ⟨hsyncing hfalse, rfl⟩
        · exact ⟨h.synchronized.symm.trans htrue, rfl⟩ }
  · rw [hf, hdecodes, hstream, hsame.1]
    exact fun d hd => h.mine d (hsteady.decodes d hd)
  · rw [← hfold]
    exact le_sequence_foldl s₀ _
  · refine ⟨hstream, ?_, ?_, ?_, fun j => ?_, ?_, ?_, ?_, ?_⟩
    · rw [heq]; exact hsteady.openId
    · rw [heq]; exact hsteady.running
    · rw [heq]; exact hsteady.cache
    · rw [heq]
      by_cases hj : j = w.stream
      · subst hj
        rw [show ∀ f c, ({ w₀.setFollower w.stream f with current := c } : ThreadStream).followers w.stream = f from
          fun _ _ => if_pos rfl]
        exact ⟨rfl, rfl⟩
      · rw [show ∀ f c, ({ w₀.setFollower w.stream f with current := c } : ThreadStream).followers j =
      w₀.followers j from
          fun _ _ => if_neg hj]
        exact hsteady.followers j
    · rw [hdecodes]; exact hsteady.decodes
    · rw [heq]; exact hsteady.connections
    · rw [heq]; exact hsteady.started
    · rw [hnewest]; exact hsteady.newest
  · rw [heq]
    rfl

variable {snapshot : ThreadSnapshot}

theorem Sound.receivePlain (h : w.Sound) (hsource : w.source = some src)
    (hsends : w.ServerSends (.frame (.snapshot snapshot false))) :
    (w.receive src (.snapshot snapshot false)).Sound ∧ Forward w (w.receive src (.snapshot snapshot false)) := by
  obtain ⟨s, hs⟩ := h.live src hsource
  have hopen := h.opened (h.running_of_source hsource)
  obtain ⟨hunsent, hdelivered, hsync, hthread, hnewest⟩ := hsends src hsource
  have hawaiting := hs.unsent hunsent
  have hreceived : w.receive src (.snapshot snapshot false) = ({ w.sent snapshot.sequence with
      source := some { src with base := some (threadFromSnapshot snapshot true), snapshotSent := true }
      current := some (threadFromSnapshot snapshot true) } : ThreadStream).snapshotDone w.stream := by
    have hmine : (decide (w.follower.generation ≠ w.follower.generation) ||
        decide (w.openId ≠ some w.follower.threadId)) = false := by simp [hopen]
    exact (if_neg (Bool.eq_false_iff.mp hmine)).trans (if_neg (not_not.mpr hthread))
  have hsteady : Steady w { w.sent snapshot.sequence with
      source := some { src with base := some (threadFromSnapshot snapshot true), snapshotSent := true }
      current := some (threadFromSnapshot snapshot true) } :=
    ⟨rfl, rfl, rfl, rfl, fun _ => ⟨rfl, rfl⟩, fun d hd => hd, rfl, rfl, newest_le_sent w _⟩
  have hwaited : w.follower.buffered = src.delivered := by
    rw [hs.buffered, hawaiting, hdelivered]
    rfl
  have hended : ∀ d ∈ w.decodes.rows, d.connection ≠ src.number := by
    intro d hd hconnection
    have htrue := hs.awaiting.mpr ⟨d, hd, hconnection⟩
    rw [hawaiting] at htrue
    cases htrue
  obtain ⟨s', hlive, hle, hsteady', hsource'⟩ := hs.done hopen hsteady rfl rfl {
    src with base := some (threadFromSnapshot snapshot true), snapshotSent := true } ⟨rfl, rfl⟩ hwaited hended hthread
    (sequence_le_sent w _) ⟨_, rfl, (ThreadState.withSyncing_self _).symm⟩ (fun hfalse => by cases hfalse)
  rw [hreceived]
  refine ⟨h.steadyLive hsource hsteady' hsource' rfl hlive, Forward.of_eq hs.current hlive.current ?_⟩
  exact (hs.sequence_le.trans hnewest).trans hle

theorem Sound.receiveGz (h : w.Sound) (hsource : w.source = some src)
    (hsends : w.ServerSends (.frame (.snapshot snapshot true))) :
    (w.receive src (.snapshot snapshot true)).Sound ∧ Forward w (w.receive src (.snapshot snapshot true)) := by
  have hrunning := h.running_of_source hsource
  obtain ⟨s, hs⟩ := h.live src hsource
  obtain ⟨hunsent, hdelivered, hsync, hthread, hnewest⟩ := hsends src hsource
  have hawaiting := hs.unsent hunsent
  have hended (d : SnapshotDecode) (hd : d ∈ w.decodes.rows) : d.connection ≠ src.number := by
    intro hconnection
    have htrue := hs.awaiting.mpr ⟨d, hd, hconnection⟩
    rw [hawaiting] at htrue
    cases htrue
  generalize hd₀ : SnapshotDecode.mk w.started w.stream w.follower.generation snapshot src.number = d₀
  have hconnection₀ : d₀.connection = src.number := by subst hd₀; rfl
  generalize hw' : w.receive src (.snapshot snapshot true) = w'
  have hmem {d : SnapshotDecode} (hd : d ∈ w'.decodes.rows) : d = d₀ ∨ d ∈ w.decodes.rows := by
    subst hw' hd₀
    exact (Table.mem_set.mp hd).imp id And.left
  have hnew : d₀ ∈ w'.decodes.rows := by
    subst hw' hd₀
    exact Table.mem_set.mpr (.inl rfl)
  have hf : w'.follower = { w.follower with snapshotApplied := false, awaitingSnapshot := true, buffered := [] } := by
    subst hw'
    exact if_pos rfl
  have hother {j : Nat} (hj : j ≠ w.stream) : w'.followers j = w.followers j := by
    subst hw'
    exact if_neg hj
  have hstream : w'.stream = w.stream := by subst hw'; rfl
  have hrunning' : w'.running = true := by subst hw'; exact hrunning
  have hnewest' : w'.newest = (w.sent snapshot.sequence).newest := by subst hw'; rfl
  have hsource' : w'.source = some { src with snapshotSent := true } := by subst hw'; rfl
  have hcurrent : w'.current = some s := by subst hw'; exact hs.current
  have hbase : ∃ b ∈ src.base, s = b.withSyncing s.syncing := by
    obtain ⟨b, hb, hfold⟩ := hs.folded
    rw [hawaiting, hdelivered] at hfold
    exact ⟨b, hb, hfold⟩
  have hlive : w'.Live { src with snapshotSent := true } s := by
    refine ⟨?_, hcurrent, fun d hd => ?_⟩
    · rw [hf, hnewest']
      exact { hs with
        sequence_le := hs.sequence_le.trans (newest_le_sent w _ _)
        applied := rfl
        awaiting := ⟨fun _ => ⟨d₀, hnew, hconnection₀⟩, fun _ => rfl⟩
        unsent := fun hfalse => by cases hfalse
        buffered := hdelivered.symm
        buffered_le := fun e he => by cases he
        decoding := fun d hd hconnection => by
          rcases hmem hd with rfl | hd
          · subst hd₀
            exact ⟨hthread, hs.sequence_le.trans hnewest, sequence_le_sent w _⟩
          · exact absurd hconnection (hended d hd)
        folded := hbase
        syncing := fun hfalse => by
          have hsynced := (hs.syncing hfalse).1
          rw [hsync] at hsynced
          cases hsynced }
    · rw [hf, hstream]
      rcases hmem hd with rfl | hd
      · subst hd₀
        exact ⟨fun _ => rfl, fun _ => ⟨rfl, rfl⟩⟩
      · exact hs.mine d hd
  refine ⟨?_, Forward.of_eq hs.current hcurrent (le_refl _)⟩
  constructor
  case source_lt =>
    intro t ht
    obtain rfl := Option.some.inj (hsource'.symm.trans ht)
    subst hw'
    exact h.source_lt src hsource
  case decode_lt =>
    have hconnections : w'.connections = w.connections ∧ w'.started = w.started + 1 := by subst hw'; exact ⟨rfl, rfl⟩
    rw [hconnections.1, hconnections.2]
    intro d hd
    rcases hmem hd with rfl | hd
    · rw [hconnection₀]
      subst hd₀
      exact ⟨h.source_lt src hsource, Nat.lt_succ_self _⟩
    · exact ⟨(h.decode_lt d hd).1, Nat.lt_succ_of_lt (h.decode_lt d hd).2⟩
  case single =>
    intro d hd d' hd' heq
    rcases hmem hd with rfl | hd <;> rcases hmem hd' with rfl | hd'
    · rfl
    · exact absurd (heq.symm.trans hconnection₀) (hended d' hd')
    · exact absurd (heq.trans hconnection₀) (hended d hd)
    · exact h.single d hd d' hd' heq
  case earlier =>
    have hgen (j : Nat) : (w'.followers j).generation = (w.followers j).generation := by
      by_cases hj : j = w.stream
      · subst hj
        rw [← hstream]
        show w'.follower.generation = _
        rw [hf, hstream]
        rfl
      · rw [hother hj]
    intro d hd
    rw [hgen, hstream]
    rcases hmem hd with rfl | hd
    · subst hd₀
      exact ⟨le_refl _, le_refl _⟩
    · exact h.earlier d hd
  case cached =>
    have hcache : w'.cache = w.cache := by subst hw'; rfl
    rw [hcache, hnewest']
    exact fun c hc => (h.cached c hc).trans (newest_le_sent w _ _)
  case stopped => exact fun hfalse => absurd (hfalse.symm.trans hrunning') Bool.false_ne_true
  case opened =>
    intro _
    rw [hf]
    subst hw'
    exact h.opened hrunning
  case missing => exact fun hfalse => absurd (hfalse.symm.trans hrunning') Bool.false_ne_true
  case resting => exact fun _ hnone => by cases hsource'.symm.trans hnone
  case live =>
    intro t ht
    obtain rfl := Option.some.inj (hsource'.symm.trans ht)
    exact ⟨s, hlive⟩

/-! #### Decodes -/

variable {d : SnapshotDecode}

private theorem Sound.forget (h : w.Sound) (hd : d ∈ w.decodes.rows)
    (hnot : ∀ src ∈ w.source, d.connection ≠ src.number) (hsteady : Steady w w')
    (hdecodes : w'.decodes = w.decodes.filter (·.number ≠ d.number)) (hsource : w'.source = w.source)
    (hcurrent : w'.current = w.current) (hnewest : w'.newest = w.newest)
    (hfollower : w.running = true → w'.follower = w.follower) : w'.Sound := by
  have hsub {e : SnapshotDecode} (he : e ∈ w'.decodes.rows) : e ∈ w.decodes.rows := hsteady.decodes e he
  refine h.steady hsteady (fun src hsrc => ⟨src, hsource ▸ hsrc, rfl⟩) (fun hfalse => ?_) (fun hrunning hnone => ?_)
    fun src hsrc => ?_
  · rw [hsource, hcurrent]
    exact h.stopped hfalse
  · obtain ⟨s, hs⟩ := h.resting hrunning (hsource ▸ hnone)
    have hf := hfollower hrunning
    refine ⟨s, ?_, hcurrent.trans hs.current, ?_⟩
    · rw [hf, hnewest]
      exact hs.toRests
    · rw [hf, hsteady.stream]
      exact fun e he => hs.outdated e (hsub he)
  · rw [hsource] at hsrc
    obtain ⟨s, hs⟩ := h.live src hsrc
    have hf := hfollower (h.running_of_source hsrc)
    refine ⟨s, ?_, hcurrent.trans hs.current, ?_⟩
    · rw [hf, hnewest]
      refine { hs with awaiting := ?_, decoding := fun e he => hs.decoding e (hsub he) }
      rw [hs.awaiting, hdecodes]
      refine ⟨fun ⟨e, he, hconnection⟩ => ⟨e, List.mem_filter.mpr ⟨he, ?_⟩, hconnection⟩,
        fun ⟨e, he, hconnection⟩ => ⟨e, List.mem_of_mem_filter he, hconnection⟩⟩
      rw [decide_eq_true_eq]
      intro hnumber
      rw [w.decodes.eq_of_key_eq he hd hnumber] at hconnection
      exact hnot src hsrc hconnection
    · rw [hf, hsteady.stream]
      exact fun e he => hs.mine e (hsub he)

theorem steady_ended (w : ThreadStream) (d : SnapshotDecode) : Steady w (w.ended d) :=
  ⟨rfl, rfl, rfl, rfl, fun _ => ⟨rfl, rfl⟩, fun _ he => List.mem_of_mem_filter he, rfl, rfl, fun _ => le_refl _⟩

theorem rebase_of_ne (hnot : ∀ src ∈ w.source, d.connection ≠ src.number) : (w.ended d).rebase d = w.ended d := by
  have hsame : (w.source.map fun (src : ThreadSource) => if src.number = d.connection then
      { src with base := some (threadFromSnapshot d.snapshot true) } else src) = w.source := by
    cases hsrc : w.source with
    | none => rfl
    | some src => rw [Option.map_some, if_neg (Ne.symm (hnot src hsrc))]
  exact congrArg (fun source => { w.ended d with source }) hsame

variable {ok : Bool}

theorem Sound.decodedOver (h : w.Sound) (hd : d ∈ w.decodes.rows)
    (hgen : d.gen ≠ (w.followers d.stream).generation) : (w.decoded d ok).Sound ∧ Forward w (w.decoded d ok) := by
  have hnot (src : ThreadSource) (hsrc : src ∈ w.source) : d.connection ≠ src.number := by
    intro hconnection
    obtain ⟨s, hs⟩ := h.live src hsrc
    obtain ⟨hstream, hsame⟩ := (hs.mine d hd).mpr hconnection
    rw [hstream] at hgen
    exact hgen hsame
  have hover : w.decoded d ok = w.ended d := by
    unfold ThreadStream.decoded
    split
    · rw [rebase_of_ne hnot]
      refine if_pos ?_
      rw [Bool.or_eq_true, decide_eq_true_eq]
      exact .inl hgen
    · exact if_pos hgen
  rw [hover]
  exact ⟨h.forget hd hnot (steady_ended w d) rfl rfl rfl rfl fun _ => rfl, Forward.of_current rfl⟩

theorem Sound.decodedClosed (h : w.Sound) (hd : d ∈ w.decodes.rows)
    (hgen : d.gen = (w.followers d.stream).generation) (hclosed : w.openId ≠ some (w.followers d.stream).threadId) :
    (w.decoded d ok).Sound ∧ Forward w (w.decoded d ok) := by
  have hother (hrunning : w.running = true) : w.stream ≠ d.stream := by
    intro heq
    rw [← heq] at hclosed
    exact hclosed (h.opened hrunning)
  have hnot (src : ThreadSource) (hsrc : src ∈ w.source) : d.connection ≠ src.number := by
    intro hconnection
    obtain ⟨s, hs⟩ := h.live src hsrc
    exact hother (h.running_of_source hsrc) ((hs.mine d hd).mpr hconnection).1.symm
  cases ok with
  | true =>
    have hdropped : w.decoded d true = w.ended d := by
      unfold ThreadStream.decoded
      rw [if_pos rfl, rebase_of_ne hnot]
      refine if_pos ?_
      rw [Bool.or_eq_true, decide_eq_true_eq, decide_eq_true_eq]
      exact .inr hclosed
    rw [hdropped]
    exact ⟨h.forget hd hnot (steady_ended w d) rfl rfl rfl rfl fun _ => rfl, Forward.of_current rfl⟩
  | false =>
    have hfailed : w.decoded d false = (w.ended d).setFollower d.stream { w.followers d.stream with
        snapshotApplied := true, awaitingSnapshot := false, buffered := [] } :=
      (if_neg (not_not.mpr hgen)).trans (snapshotDone_not_open (w := w.ended d) hclosed)
    rw [hfailed]
    refine ⟨h.forget hd hnot ?_ rfl rfl rfl rfl fun hrunning => ?_, Forward.of_current rfl⟩
    · refine ⟨rfl, rfl, rfl, rfl, fun j => ?_, (steady_ended w d).decodes, rfl, rfl, fun _ => le_refl _⟩
      by_cases hj : j = d.stream
      · rw [hj, followers_setFollower_self]
        exact ⟨rfl, rfl⟩
      · rw [followers_setFollower_of_ne _ hj]
        exact ⟨rfl, rfl⟩
    · exact followers_setFollower_of_ne _ (hother hrunning)

theorem Sound.decodedOpen (h : w.Sound) (hd : d ∈ w.decodes.rows) (hstream : d.stream = w.stream)
    (hgen : d.gen = w.follower.generation) (hmine : w.openId = some w.follower.threadId) :
    (w.decoded d ok).Sound ∧ Forward w (w.decoded d ok) := by
  have hrunning : w.running = true := by
    by_contra hstopped
    exact h.missing (Bool.eq_false_iff.mpr hstopped) (by rw [hmine]; rfl) d hd hstream hgen
  obtain ⟨src, hsrc⟩ : ∃ src, w.source = some src := by
    cases hsrc : w.source with
    | some src => exact ⟨src, rfl⟩
    | none =>
      obtain ⟨s, hs⟩ := h.resting hrunning hsrc
      exact absurd hgen (hs.outdated d hd hstream)
  obtain ⟨s, hs⟩ := h.live src hsrc
  have hconnection := (hs.mine d hd).mp ⟨hstream, hgen⟩
  have hawaiting := hs.awaiting.mpr ⟨d, hd, hconnection⟩
  obtain ⟨hthread, hle, hsent⟩ := hs.decoding d hd hconnection
  have hwaited : w.follower.buffered = src.delivered := by rw [hs.buffered, hawaiting]; rfl
  have hended (e : SnapshotDecode) (he : e ∈ (w.ended d).decodes.rows) : e.connection ≠ src.number := by
    intro heq
    obtain ⟨he, hne⟩ := List.mem_filter.mp he
    rw [h.single e he d hd (heq.trans hconnection.symm)] at hne
    simp at hne
  cases ok with
  | true =>
    have happlied : w.decoded d true = ({ w.ended d with
        source := some { src with base := some (threadFromSnapshot d.snapshot true) }
        current := some (threadFromSnapshot d.snapshot true) } : ThreadStream).snapshotDone w.stream := by
      have hrebased : (w.ended d).rebase d = { w.ended d with
          source := some { src with base := some (threadFromSnapshot d.snapshot true) } } := by
        unfold rebase
        rw [show (w.ended d).source = some src from hsrc, Option.map_some, if_pos hconnection.symm]
      have hcond : (decide (d.gen ≠ w.follower.generation) || decide (w.openId ≠ some w.follower.threadId)) =
      false := by
        simp [hgen, hmine]
      unfold ThreadStream.decoded
      rw [if_pos rfl, hrebased, hstream]
      exact (if_neg (Bool.eq_false_iff.mp hcond)).trans (if_neg (not_not.mpr hthread))
    have hsteady : Steady w { w.ended d with
        source := some { src with base := some (threadFromSnapshot d.snapshot true) }
        current := some (threadFromSnapshot d.snapshot true) } :=
      ⟨rfl, rfl, rfl, rfl, fun _ => ⟨rfl, rfl⟩, (steady_ended w d).decodes, rfl, rfl, fun _ => le_refl _⟩
    obtain ⟨s', hlive, hle', hsteady', hsource'⟩ := hs.done hmine hsteady rfl rfl {
      src with base := some (threadFromSnapshot d.snapshot true) } ⟨rfl, rfl⟩ hwaited hended hthread hsent
      ⟨_, rfl, (ThreadState.withSyncing_self _).symm⟩ (fun hfalse => by cases hfalse)
    rw [happlied]
    exact ⟨h.steadyLive hsrc hsteady' hsource' rfl hlive, Forward.of_eq hs.current hlive.current (hle.trans hle')⟩
  | false =>
    have hfailed : w.decoded d false = (w.ended d).snapshotDone w.stream := by
      unfold ThreadStream.decoded
      rw [if_neg Bool.false_ne_true, hstream]
      exact if_neg (not_not.mpr hgen)
    have hbase : ∃ b ∈ src.base, s = b.withSyncing s.syncing := by
      obtain ⟨b, hb, hfold⟩ := hs.folded
      rw [hawaiting] at hfold
      exact ⟨b, hb, hfold⟩
    obtain ⟨s', hlive, hle', hsteady', hsource'⟩ := hs.done hmine (steady_ended w d) rfl hs.current src
      ⟨rfl, rfl⟩ hwaited hended hs.threadId hs.sequence_le hbase fun hfalse => (hs.syncing hfalse).1
    rw [hfailed]
    exact ⟨h.steadyLive hsrc hsteady' (hsource'.trans hsrc) rfl hlive, Forward.of_eq hs.current hlive.current hle'⟩

private theorem Sound.decoded (h : w.Sound) (hd : d ∈ w.decodes.rows)
    (hkeeps : d.stream = w.stream ∨ d.gen ≠ (w.followers d.stream).generation ∨
      w.openId ≠ some (w.followers d.stream).threadId) :
    (w.decoded d ok).Sound ∧ Forward w (w.decoded d ok) := by
  by_cases hgen : d.gen = (w.followers d.stream).generation
  · by_cases hmine : w.openId = some (w.followers d.stream).threadId
    · have hstream : d.stream = w.stream := by
        rcases hkeeps with hstream | hover | hclosed
        · exact hstream
        · exact absurd hgen hover
        · exact absurd hmine hclosed
      rw [hstream] at hgen hmine
      exact h.decodedOpen hd hstream hgen hmine
    · exact h.decodedClosed hd hgen hmine
  · exact h.decodedOver hd hgen

/-! ### The open thread -/

theorem Sound.step (h : w.Sound) {e : Event} (hsends : w.ServerSends e) (hkeeps : w.KeepsGeneration e)
    (hstep : w.step e = some w') : w'.Sound ∧ (w'.openId = w.openId → Forward w w') := by
  cases e with
  | opened threadId now =>
    cases hstep
    exact h.openThread threadId now
  | closed now =>
    cases hstep
    exact ⟨h.close now, fun _ => Forward.of_none rfl⟩
  | frame frame =>
    obtain ⟨src, hsource, rfl⟩ := Option.map_eq_some_iff.mp hstep
    cases frame with
    | snapshot snapshot gz =>
      cases gz with
      | false => exact (h.receivePlain hsource hsends).imp_right fun hforward _ => hforward
      | true => exact (h.receiveGz hsource hsends).imp_right fun hforward _ => hforward
    | event event => exact (h.receiveEvent hsource event).imp_right fun hforward _ => hforward
    | synchronized => exact (h.receiveSynchronized hsource).imp_right fun hforward _ => hforward
    | reset => exact ⟨h.reconnect (h.running_of_source hsource) hkeeps, fun _ => Forward.of_current rfl⟩
  | dropped =>
    simp only [ThreadStream.step] at hstep
    split at hstep
    · rename_i hsome
      cases hstep
      obtain ⟨src, hsource⟩ := Option.isSome_iff_exists.mp hsome
      exact (h.drop hsource).imp_right fun hforward _ => hforward
    · cases hstep
  | retried =>
    simp only [ThreadStream.step] at hstep
    split at hstep
    · rename_i hidle
      cases hstep
      obtain ⟨s, hs⟩ := h.resting hidle.1 (Option.isNone_iff_eq_none.mp hidle.2)
      exact ⟨h.connect hidle.1 hs, fun _ => Forward.of_current rfl⟩
    · cases hstep
  | woken =>
    simp only [ThreadStream.step] at hstep
    split at hstep
    · rename_i hrunning
      cases hstep
      exact ⟨h.reconnect hrunning hkeeps, fun _ => Forward.of_current rfl⟩
    · cases hstep
  | gone =>
    simp only [ThreadStream.step] at hstep
    split at hstep
    · rename_i hidle
      cases hstep
      refine ⟨h.gone hidle.1 (Option.isNone_iff_eq_none.mp hidle.2), fun _ => Forward.of_none ?_⟩
      rw [ThreadStream.gone]
      dsimp only
      rw [if_pos (h.opened hidle.1)]
    · cases hstep
  | decoded number ok =>
    obtain ⟨d, hfound, rfl⟩ := Option.map_eq_some_iff.mp hstep
    exact (h.decoded (Table.mem_of_find? hfound) (hkeeps d hfound)).imp_right fun hforward _ => hforward

private theorem Sound.start : start.Sound where
  source_lt := fun _ hsrc => by cases hsrc
  decode_lt := fun _ hd => by cases hd
  single := fun _ hd => by cases hd
  earlier := fun _ hd => by cases hd
  cached := fun _ hc => by cases hc
  stopped := fun _ => ⟨rfl, rfl⟩
  opened := fun hfalse => by cases hfalse
  missing := fun _ hfalse => by cases hfalse
  resting := fun hfalse => by cases hfalse
  live := fun _ hsrc => by cases hsrc

/-- The connection has delivered `synchronized`, no snapshot of it is decoded, and the thread shows the events it
delivered, folded over its base. -/
def CaughtUp (w : ThreadStream) (src : ThreadSource) (s : ThreadState) : Prop :=
  src.synchronized = true ∧ (∀ d ∈ w.decodes.rows, d.connection ≠ src.number) ∧
    ∃ b ∈ src.base, s = (src.delivered.foldl applyThreadEvent b).withSyncing s.syncing

private theorem Live.caughtUp (h : w.Live src s) (hsync : src.synchronized = true)
    (hawaiting : w.follower.awaitingSnapshot = false) : w.CaughtUp src s := by
  refine ⟨hsync, fun d hd hconnection => ?_, ?_⟩
  · have htrue := h.awaiting.mpr ⟨d, hd, hconnection⟩
    rw [hawaiting] at htrue
    cases htrue
  · have hfolded := h.folded
    rw [hawaiting] at hfolded
    exact hfolded

/-- In every run that meets both conditions: once the current connection has delivered `synchronized` and no
snapshot of it is decoded, the open thread shows the events the connection delivered, folded over its snapshot (or
the state it resumed from); it counts as in sync only then; and while one thread is open its sequence does not go
back. -/
theorem follows (h : Runs.Run step (fun w e => w.ServerSends e ∧ w.KeepsGeneration e) start w) :
    (∀ src ∈ w.source, src.synchronized = true → (∀ d ∈ w.decodes.rows, d.connection ≠ src.number) →
      ∃ s ∈ w.current, w.CaughtUp src s) ∧
    (∀ s ∈ w.current, s.syncing = false → ∃ src ∈ w.source, w.CaughtUp src s) ∧
    ∀ e w', w.ServerSends e → w.KeepsGeneration e → w.step e = some w' → w'.openId = w.openId → w.Forward w' := by
  have hsound := Runs.Run.invariant (P := Sound) (fun _ _ _ hm hmeets hstep => (hm.step hmeets.1 hmeets.2 hstep).1) h
    Sound.start
  refine ⟨fun src hsource hsync hdecodes => ?_, fun s hcurrent hsyncing => ?_,
    fun e w' hsends hkeeps hstep => (hsound.step hsends hkeeps hstep).2⟩
  · obtain ⟨s, hs⟩ := hsound.live src hsource
    refine ⟨s, hs.current, hs.caughtUp hsync ?_⟩
    rw [Bool.eq_false_iff]
    intro hawaiting
    obtain ⟨d, hd, hconnection⟩ := hs.awaiting.mp hawaiting
    exact hdecodes d hd hconnection
  · have hrunning := (hsound.shown hcurrent).1
    cases hsource : w.source with
    | none =>
      obtain ⟨t, ht⟩ := hsound.resting hrunning hsource
      obtain rfl := Option.some.inj (hcurrent.symm.trans ht.current)
      rw [ht.syncing] at hsyncing
      cases hsyncing
    | some src =>
      obtain ⟨t, ht⟩ := hsound.live src hsource
      obtain rfl := Option.some.inj (hcurrent.symm.trans ht.current)
      obtain ⟨hsync, hawaiting⟩ := ht.syncing hsyncing
      exact ⟨src, rfl, ht.caughtUp hsync hawaiting⟩

/-- A snapshot of the thread `t1` with nothing in it. -/
def emptySnapshot (sequence : Nat) : ThreadSnapshot where
  sequence
  thread := toWireThread (testThread "t1")
  runs := []
  items := []
  requests := []
  queue := []
  historyCursor := none

/-- A gzipped snapshot is decoded after `synchronized`, and then the thread is in sync. -/
theorem follows_decoded : ∃ w, Runs.Run step (fun w e => w.ServerSends e ∧ w.KeepsGeneration e) start w ∧
    ∃ s ∈ w.current, s.sequence = 5 ∧ ∃ src ∈ w.source, w.CaughtUp src s := by
  have hends : (Runs.exec step (fun w e => w.ServerSends e ∧ w.KeepsGeneration e) start [.opened "t1" 0,
      .frame (.snapshot (emptySnapshot 5) true), .frame .synchronized, .decoded 0 true]).any
        (fun w => w.current.any fun s => s.sequence = 5 && !s.syncing) = true := by decide
  obtain ⟨w, hrun, hany⟩ := Runs.exists_run_of_exec hends
  obtain ⟨s, hs, hshown⟩ := (Option.any_eq_true _ _).mp hany
  rw [Bool.and_eq_true, decide_eq_true_eq, Bool.not_eq_true'] at hshown
  exact ⟨w, hrun, s, hs, hshown.1, (follows hrun).2.1 s hs hshown.2⟩

/-- The page wakes while a snapshot is decoded: the decode ends after the new connection's snapshot has landed, and
the thread goes back to the old one. -/
theorem wake_goes_back : ∃ w e w', Runs.Run step ServerSends start w ∧ w.ServerSends e ∧ w.step e = some w' ∧
    w'.openId = w.openId ∧ ¬w.Forward w' := by
  have hends : (Runs.exec step ServerSends start [.opened "t1" 0, .frame (.snapshot (emptySnapshot 5) true), .woken,
      .frame (.snapshot (emptySnapshot 7) false), .frame .synchronized]).any (fun w =>
        (w.step (.decoded 0 true)).any fun w' => w'.openId = w.openId &&
          w.current.any fun s => w'.current.any fun s' => s'.sequence < s.sequence) = true := by decide
  obtain ⟨w, hrun, hany⟩ := Runs.exists_run_of_exec hends
  obtain ⟨w', hstep, hback⟩ := (Option.any_eq_true _ _).mp hany
  rw [Bool.and_eq_true, decide_eq_true_eq] at hback
  obtain ⟨s, hs, hany'⟩ := (Option.any_eq_true _ _).mp hback.2
  obtain ⟨s', hs', hlt⟩ := (Option.any_eq_true _ _).mp hany'
  exact ⟨w, .decoded 0 true, w', hrun, trivial, hstep, hback.1, fun hforward =>
    absurd (of_decide_eq_true hlt) (not_lt.mpr (hforward s hs s' hs'))⟩

end ThreadStream

end Sightr.Client
