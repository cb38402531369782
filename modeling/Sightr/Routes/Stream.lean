import Sightr.Client.Wire

/-!
# The v2 streams

`shellRoute`, `threadRoute` and `openStream` of `bridge/threads/v2-routes.ts`. A route reads the
catch-up frames, a thread's route then marks the pane seen, which may make the herd ingest append, and
`openStream` attaches the live listener and writes the catch-up. What the herd ingest appends in
between is in neither.
-/

namespace Sightr

/-! ### Frames -/

/-- A frame of a v2 stream, with the data this file's results are about. -/
inductive StreamFrame
  | shellSnapshot (snapshot : ShellSnapshot)
  | threadSnapshot (snapshot : ThreadSnapshot)
  | event (e : ThreadEvent)
  | synchronized (sequence : Nat)
  | reset (sequence : Nat)
  | ping (sequence : Nat)
  | build
  deriving DecidableEq

def eventFrame (e : ThreadEvent) : StreamFrame := .event { e with payload := e.payload.toJson }

def StreamFrame.isContent : StreamFrame → Bool
  | .shellSnapshot _ | .threadSnapshot _ | .event _ | .synchronized _ => true
  | .reset _ | .ping _ | .build => false

/-- The catch-up and the live events among the frames. -/
def content (frames : List StreamFrame) : List StreamFrame := frames.filter (·.isContent)

inductive StreamKind
  | shell
  | thread (threadId : String)
  deriving DecidableEq

/-- Does a live listener of this kind send the event? -/
def StreamKind.accepts : StreamKind → ThreadEvent → Bool
  | .shell, e => SHELL_EVENT_TYPES.contains e.payload.type
  | .thread threadId, e => e.threadId = some threadId

/-! ### An open stream -/

/-- What enqueueing a chunk comes to: the client keeps up, it has more than `maxBehind` bytes queued,
or the controller is closed and throws. -/
inductive Enqueued
  | taken | behind | closed
  deriving DecidableEq

structure OpenStream where
  kind : StreamKind
  /-- The last sequence sent, or the one `synchronized` reported. -/
  lastSent : Nat
  ended : Bool
  sent : List StreamFrame
  deriving DecidableEq

namespace OpenStream

section

-- What the `n`-th chunk's enqueue comes to.
variable (controller : Nat → Enqueued)

def write (s : OpenStream) (chunk : StreamFrame) : OpenStream × Bool :=
  if s.ended then (s, false)
  else
    match controller s.sent.length with
    | .closed => ({ s with ended := true }, false)
    | .taken => ({ s with sent := s.sent ++ [chunk] }, true)
    | .behind =>
      let told := s.sent ++ [chunk]
      match controller told.length with
      | .closed => ({ s with sent := told, ended := true }, false)
      | _ => ({ s with sent := told ++ [.reset s.lastSent], ended := true }, false)

def onCommitted (s : OpenStream) : List ThreadEvent → OpenStream
  | [] => s
  | e :: events =>
    if e.sequence ≤ s.lastSent || !s.kind.accepts e then s.onCommitted events
    else
      match s.write controller (eventFrame e) with
      | (s, false) => s
      | (s, true) => { s with lastSent := e.sequence }.onCommitted events

def writeAll (s : OpenStream) : List StreamFrame → OpenStream
  | [] => s
  | chunk :: chunks =>
    match s.write controller chunk with
    | (s, false) => s
    | (s, true) => s.writeAll chunks

end

end OpenStream

structure StreamSpec where
  kind : StreamKind
  catchUp : List StreamFrame
  /-- The sequence `synchronized` reports; live events at or below it are not sent. -/
  synced : Nat
  deriving DecidableEq

def openStream (controller : Nat → Enqueued) (spec : StreamSpec) : OpenStream :=
  { kind := spec.kind, lastSent := spec.synced, ended := false, sent := [] : OpenStream }.writeAll
    controller (spec.catchUp ++ [.synchronized spec.synced])

/-! ### The routes -/

/-- The events after the cursor, when the cursor is one this store can resume and they are few. -/
def Db.replayAfter (db : Db) (after : Nat) (o : EventsAfterOptions) : Option (List StreamFrame) :=
  if 0 < after ∧ after ≤ db.lastSequence ∧ db.minSequence ≤ after then
    let events := db.eventsAfter after { o with limit := some (V2_REPLAY_LIMIT + 1) }
    if events.length ≤ V2_REPLAY_LIMIT then some (events.map eventFrame) else none
  else none

def shellRoute (db : Db) (after : Nat) : StreamSpec :=
  match db.replayAfter after { types := some SHELL_EVENT_TYPES } with
  | some catchUp => { kind := .shell, catchUp, synced := db.lastSequence }
  | none =>
    { kind := .shell, catchUp := [.shellSnapshot db.snapshotShell]
      synced := db.snapshotShell.sequence }

def threadRoute (db : Db) (threadId : String) (after : Nat) : Option StreamSpec :=
  match db.projection.threads.find? threadId with
  | none => none
  | some _ =>
    match db.replayAfter after { threadId := some threadId } with
    | some catchUp => some { kind := .thread threadId, catchUp, synced := db.lastSequence }
    | none =>
      (db.snapshotThread threadId).map fun snapshot =>
        { kind := .thread threadId, catchUp := [.threadSnapshot snapshot]
          synced := snapshot.sequence }

/-- A request to open a stream. Looking at a thread may mark its pane seen, and then the herd ingest's
`reconcile` may append the batch `seen`. -/
inductive StreamRequest
  | shell
  | thread (threadId : String) (seen : Option Batch)

namespace StreamRequest

def kind : StreamRequest → StreamKind
  | shell => .shell
  | thread threadId _ => .thread threadId

def route (request : StreamRequest) (db : Db) (after : Nat) : Option StreamSpec :=
  match request with
  | shell => some (shellRoute db after)
  | thread threadId _ => threadRoute db threadId after

/-- What opening the stream appends: `reconcile` swallows a batch that is refused. -/
def reconcile (request : StreamRequest) (db : Db) : Db × List StoredEvent :=
  match request with
  | shell | thread _ none => (db, [])
  | thread _ (some batch) =>
    match db.append batch with
    | .ok r => r
    | .error _ => (db, [])

end StreamRequest

/-! ### A stream among appends -/

/-- The store, one open stream, and every event committed since the stream's catch-up was read. -/
structure StreamWorld where
  db : Db
  stream : OpenStream
  committed : List StoredEvent

inductive StreamAction
  | append (batch : Batch)
  | ping
  | build
  /-- The client cancels, or a newer stream of the same client replaces this one. -/
  | endStream

namespace StreamWorld

variable (controller : Nat → Enqueued)

/-- The world right after a request's stream is open. -/
def opened (db : Db) (request : StreamRequest) (spec : StreamSpec) : StreamWorld where
  db := (request.reconcile db).1
  stream := openStream controller spec
  committed := (request.reconcile db).2

def step (w : StreamWorld) : StreamAction → StreamWorld
  | .append batch =>
    match w.db.append batch with
    | .error _ => w
    | .ok (db, written) =>
      { db, committed := w.committed ++ written
        -- An ended stream has unsubscribed.
        stream := if w.stream.ended then w.stream
          else w.stream.onCommitted controller (written.map (·.toWireEvent)) }
  | .ping => { w with stream := (w.stream.write controller (.ping w.db.lastSequence)).1 }
  | .build => { w with stream := (w.stream.write controller .build).1 }
  | .endStream => { w with stream := { w.stream with ended := true } }

def run (w : StreamWorld) (actions : List StreamAction) : StreamWorld := actions.foldl (step controller) w

end StreamWorld

/-- What the stream owes its client: the catch-up, and the accepted events committed after it. -/
def StreamSpec.owes (spec : StreamSpec) (committed : List StoredEvent) : List StreamFrame :=
  spec.catchUp ++ .synchronized spec.synced ::
    (committed.filter fun e => spec.kind.accepts e.frame).map fun e => .event e.frame

def StreamKind.snapshotFrame (db : Db) : StreamKind → Option StreamFrame
  | .shell => some (.shellSnapshot db.snapshotShell)
  | .thread threadId => (db.snapshotThread threadId).map .threadSnapshot

/-- The stored events the stream accepts from past the cursor up to `synced`. -/
def StreamSpec.missed (spec : StreamSpec) (db : Db) (after : Nat) : List StoredEvent :=
  db.events.filter fun e =>
    after < e.sequence && e.sequence ≤ spec.synced && spec.kind.accepts e.frame

/-- The catch-up is a snapshot taken at `synced`, or the replay of what the client missed. -/
structure StreamSpec.CatchesUp (spec : StreamSpec) (db : Db) (after : Nat) : Prop where
  synced : spec.synced = db.lastSequence
  catchUp : (∃ snapshot, spec.kind.snapshotFrame db = some snapshot ∧ spec.catchUp = [snapshot]) ∨
    spec.catchUp = (spec.missed db after).map fun e => .event e.frame

/-- The client has been sent what it is owed, up to where the stream ended if it did, and the events
it is owed stand past `synced`, in increasing order. -/
structure StreamWorld.Sent (w : StreamWorld) (spec : StreamSpec) : Prop where
  upToEnd : content w.stream.sent <+: spec.owes w.committed
  whole : w.stream.ended = false → content w.stream.sent = spec.owes w.committed
  later : ∀ e ∈ w.committed, spec.synced < e.sequence
  sorted : w.committed.Pairwise (·.sequence < ·.sequence)

/-- The stream of a request never skips an event, however its client reads and whatever happens after
it is opened. -/
def NeverSkips (db : Db) (request : StreamRequest) (after : Nat) (spec : StreamSpec) : Prop :=
  spec.CatchesUp db after ∧ ∀ (controller : Nat → Enqueued) (actions : List StreamAction),
    ((StreamWorld.opened controller db request spec).run controller actions).Sent spec

/-! ### What writing sends -/

@[simp] theorem content_append (l l' : List StreamFrame) :
    content (l ++ l') = content l ++ content l' := List.filter_append ..

theorem eventFrame_toWireEvent (event : StoredEvent) : eventFrame event.toWireEvent = .event event.frame := by
  simp only [eventFrame, StoredEvent.frame, StoredEvent.toWireEvent, StoredEvent.toJson,
    ServerPayload.toWire_toJson]

namespace OpenStream

/-- From `s` to `s'` the stream was given these frames to send; only if it ended may some be lost. -/
structure Sends (s s' : OpenStream) (frames : List StreamFrame) : Prop where
  kind : s'.kind = s.kind
  upToEnd : content s'.sent <+: content s.sent ++ frames
  whole : s'.ended = false → s.ended = false ∧ content s'.sent = content s.sent ++ frames
  stopped : s.ended = true → content s'.sent = content s.sent

theorem Sends.refl (s : OpenStream) : s.Sends s [] := ⟨rfl, by simp, fun h => ⟨h, by simp⟩, fun _ => rfl⟩

variable {s s' : OpenStream} {frames more : List StreamFrame}

theorem Sends.of_ended (h : s.Sends s' frames) (hended : s'.ended = true) : s.Sends s' (frames ++ more) := by
  refine ⟨h.kind, ?_, fun hopen => by simp [hended] at hopen, h.stopped⟩
  rw [← List.append_assoc]
  exact h.upToEnd.trans (List.prefix_append ..)

theorem Sends.trans {m : OpenStream} (h : s.Sends m frames) (hopen : m.ended = false) (h' : m.Sends s' more) :
    s.Sends s' (frames ++ more) := by
  obtain ⟨hs, hm⟩ := h.whole hopen
  refine ⟨h'.kind.trans h.kind, ?_, fun hs' => ⟨hs, ?_⟩, fun hended => by simp [hs] at hended⟩
  · rw [← List.append_assoc, ← hm]
    exact h'.upToEnd
  · rw [(h'.whole hs').2, hm, List.append_assoc]

variable (controller : Nat → Enqueued)

theorem write_sends (s : OpenStream) (chunk : StreamFrame) :
    s.Sends (s.write controller chunk).1 (content [chunk]) ∧ (s.write controller chunk).1.lastSent = s.lastSent ∧
      (s.write controller chunk).2 = !(s.write controller chunk).1.ended := by
  by_cases hended : s.ended = true
  · rw [write, if_pos hended]
    refine ⟨⟨rfl, List.prefix_append .., fun h => ?_, fun _ => rfl⟩, rfl, by simp [hended]⟩
    simp [hended] at h
  · have hopen : s.ended = false := by simpa using hended
    rw [write, if_neg hended]
    cases controller s.sent.length with
    | taken =>
      exact ⟨⟨rfl, by simp, fun _ => ⟨hopen, by simp⟩, (absurd · hended)⟩, rfl, by simp [hopen]⟩
    | closed => exact ⟨⟨rfl, by simp, fun h => by simp at h, (absurd · hended)⟩, rfl, rfl⟩
    | behind =>
      have hreset : content [.reset s.lastSent] = [] := rfl
      have hsent : content (s.sent ++ [chunk] ++ [.reset s.lastSent]) = content s.sent ++ content [chunk] := by
        rw [content_append, hreset, List.append_nil, content_append]
      cases hagain : controller (s.sent ++ [chunk]).length <;> dsimp only <;> rw [hagain]
      · exact ⟨⟨rfl, hsent ▸ List.prefix_rfl, fun h => by simp at h, (absurd · hended)⟩, rfl, rfl⟩
      · exact ⟨⟨rfl, hsent ▸ List.prefix_rfl, fun h => by simp at h, (absurd · hended)⟩, rfl, rfl⟩
      · exact ⟨⟨rfl, by simp, fun h => by simp at h, (absurd · hended)⟩, rfl, rfl⟩

theorem writeAll_sends (s : OpenStream) (chunks : List StreamFrame) :
    s.Sends (s.writeAll controller chunks) (content chunks) ∧
      (s.writeAll controller chunks).lastSent = s.lastSent := by
  induction chunks generalizing s with
  | nil => exact ⟨.refl s, rfl⟩
  | cons chunk chunks ih =>
    obtain ⟨hsends, hlast, hopen⟩ := s.write_sends controller chunk
    rw [writeAll, ← List.singleton_append, content_append]
    rcases hwrite : s.write controller chunk with ⟨m, _ | _⟩ <;>
      simp only [hwrite] at hsends hlast hopen ⊢
    · exact ⟨hsends.of_ended (by simpa using hopen), hlast⟩
    · obtain ⟨hrest, hlast'⟩ := ih m
      exact ⟨hsends.trans (by simpa using hopen) hrest, hlast'.trans hlast⟩

theorem onCommitted_sends {events : List ThreadEvent} {n : Nat} (hsorted : events.Pairwise (·.sequence < ·.sequence))
    (hlater : ∀ e ∈ events, s.lastSent < e.sequence ∧ e.sequence ≤ n) (hn : s.lastSent ≤ n) :
    s.Sends (s.onCommitted controller events) ((events.filter s.kind.accepts).map eventFrame) ∧
      (s.onCommitted controller events).lastSent ≤ n := by
  induction events generalizing s with
  | nil => exact ⟨.refl s, hn⟩
  | cons e events ih =>
    obtain ⟨he, hsorted⟩ := List.pairwise_cons.mp hsorted
    obtain ⟨hlast, hle⟩ := hlater e List.mem_cons_self
    have hrest : ∀ e ∈ events, s.lastSent < e.sequence ∧ e.sequence ≤ n :=
      fun e he => hlater e (List.mem_cons_of_mem _ he)
    have hnew : decide (e.sequence ≤ s.lastSent) = false := by simpa using hlast
    rw [onCommitted, hnew, Bool.false_or]
    cases haccepts : s.kind.accepts e with
    | false =>
      have hdrop : (e :: events).filter s.kind.accepts = events.filter s.kind.accepts := by
        simp [haccepts]
      rw [hdrop]
      exact ih hsorted hrest hn
    | true =>
      have hkeep : (e :: events).filter s.kind.accepts = e :: events.filter s.kind.accepts := by
        simp [haccepts]
      obtain ⟨hsends, hsame, hopen⟩ := s.write_sends controller (eventFrame e)
      rw [hkeep, List.map_cons, ← List.singleton_append]
      rcases hwrite : s.write controller (eventFrame e) with ⟨m, _ | _⟩ <;>
        simp only [hwrite, Bool.not_true, Bool.false_eq_true, if_false] at hsends hsame hopen ⊢
      · exact ⟨hsends.of_ended (by simpa using hopen), hsame.trans_le hn⟩
      · obtain ⟨htail, hlast'⟩ := @ih { m with lastSent := e.sequence } hsorted
          (fun e' he' => ⟨he e' he', (hrest e' he').2⟩) hle
        have hmid : s.Sends { m with lastSent := e.sequence } [eventFrame e] :=
          ⟨hsends.kind, hsends.upToEnd, hsends.whole, hsends.stopped⟩
        refine ⟨?_, hlast'⟩
        rw [← show m.kind = s.kind from hsends.kind]
        exact hmid.trans (by simpa using hopen) htail

end OpenStream

/-! ### The catch-up -/

theorem accepts_toWireEvent (kind : StreamKind) (event : StoredEvent) :
    kind.accepts event.toWireEvent = kind.accepts event.frame := by
  cases kind with
  | shell => simp only [StreamKind.accepts, StoredEvent.type_toWireEvent, StoredEvent.type_frame]
  | thread threadId => rfl

variable {db : Db} {after : Nat} {spec : StreamSpec}

theorem replayAfter_eq {o : Db.EventsAfterOptions} {frames : List StreamFrame} (hdb : db.Ordered)
    (hsynced : spec.synced = db.lastSequence) (ho : ∀ e : StoredEvent, o.admits e = spec.kind.accepts e.frame)
    (h : db.replayAfter after o = some frames) :
    frames = (spec.missed db after).map fun e => .event e.frame := by
  unfold Db.replayAfter at h
  split at h
  case isFalse => cases h
  dsimp only at h
  split at h
  case isFalse => cases h
  rename_i hfew
  cases h
  have hrows : db.events.filter (fun e => decide (after < e.sequence) && o.admits e) = spec.missed db after := by
    refine List.filter_congr fun e he => ?_
    have hle : e.sequence ≤ spec.synced := hsynced ▸ hdb.le_seq e he
    rw [ho, decide_eq_true hle, Bool.and_true]
  have hadmits : ∀ limit, Db.EventsAfterOptions.admits { o with limit } = o.admits := fun _ => rfl
  simp only [Db.eventsAfter, Db.selectEvents, hadmits, hrows, List.length_map, List.length_take] at hfew ⊢
  rw [List.take_of_length_le (by omega), List.map_map]
  exact List.map_congr_left fun e _ => eventFrame_toWireEvent e

theorem shellRoute_catchesUp (hdb : db.Ordered) (after : Nat) :
    (shellRoute db after).CatchesUp db after ∧ (shellRoute db after).kind = .shell := by
  unfold shellRoute
  split
  · rename_i catchUp h
    refine ⟨⟨rfl, .inr ?_⟩, rfl⟩
    exact replayAfter_eq hdb rfl (fun e => by
      simp [Db.EventsAfterOptions.admits, StreamKind.accepts]) h
  · exact ⟨⟨rfl, .inl ⟨_, rfl, rfl⟩⟩, rfl⟩

theorem threadRoute_catchesUp {threadId : String} (hdb : db.Ordered) (h : threadRoute db threadId after = some spec) :
    spec.CatchesUp db after ∧ spec.kind = .thread threadId := by
  unfold threadRoute at h
  split at h
  · cases h
  split at h
  · rename_i catchUp hreplay
    cases h
    refine ⟨⟨rfl, .inr ?_⟩, rfl⟩
    exact replayAfter_eq hdb rfl (fun e => by
      simp only [Db.EventsAfterOptions.admits, StreamKind.accepts, Option.all_some, Option.all_none,
        Bool.and_true, StoredEvent.threadId_frame]
      exact decide_eq_decide.mpr Iff.rfl) hreplay
  · obtain ⟨snapshot, hsnapshot, rfl⟩ := Option.map_eq_some_iff.mp h
    refine ⟨⟨?_, .inl ⟨_, by simp [StreamKind.snapshotFrame, hsnapshot], rfl⟩⟩, rfl⟩
    exact Db.sequence_snapshotThread hsnapshot

variable {request : StreamRequest}

theorem StreamRequest.route_catchesUp (hdb : db.Ordered) (h : request.route db after = some spec) :
    spec.CatchesUp db after ∧ spec.kind = request.kind := by
  cases request with
  | shell =>
    cases h
    exact shellRoute_catchesUp hdb after
  | thread threadId seen => exact threadRoute_catchesUp hdb h

/-! ### Appends while the stream is open -/

structure StreamWorld.Current (w : StreamWorld) (spec : StreamSpec) : Prop where
  kind : w.stream.kind = spec.kind
  sent : w.Sent spec
  synced_le : spec.synced ≤ w.db.seq
  lastSent_le : w.stream.lastSent ≤ w.db.seq
  committed_le : ∀ e ∈ w.committed, e.sequence ≤ w.db.seq

theorem StreamSpec.owes_append (spec : StreamSpec) (committed written : List StoredEvent) :
    spec.owes (committed ++ written) = spec.owes committed ++
      (written.filter fun e => spec.kind.accepts e.frame).map fun e => .event e.frame := by
  simp [owes]

variable {controller : Nat → Enqueued}

variable {w : StreamWorld} {s : OpenStream}

section

variable (hw : w.Current spec)
include hw

theorem StreamWorld.Current.sends {written : List StoredEvent} (hcontinues : w.db.Continues written db)
    (hsends : w.stream.Sends s ((written.filter fun e => spec.kind.accepts e.frame).map fun e => .event e.frame))
    (hlast : s.lastSent ≤ db.seq) :
    ({ db, stream := s, committed := w.committed ++ written } : StreamWorld).Current spec := by
  have hle := hcontinues.le
  have howes := spec.owes_append w.committed written
  refine ⟨hsends.kind.trans hw.kind, ⟨?_, fun hopen => ?_, fun e he => ?_, ?_⟩,
    hw.synced_le.trans hle, hlast, fun e he => ?_⟩
  · rw [howes]
    cases hended : w.stream.ended with
    | false => exact hw.sent.whole hended ▸ hsends.upToEnd
    | true => exact hsends.stopped hended ▸ hw.sent.upToEnd.trans (List.prefix_append ..)
  · obtain ⟨hw', hsame⟩ := hsends.whole hopen
    rw [howes, ← hw.sent.whole hw', hsame]
  · rcases List.mem_append.mp he with he | he
    · exact hw.sent.later e he
    · exact hw.synced_le.trans_lt (hcontinues.bounds e he).1
  · refine List.pairwise_append.mpr ⟨hw.sent.sorted, hcontinues.sorted, fun a ha b hb => ?_⟩
    exact (hw.committed_le a ha).trans_lt (hcontinues.bounds b hb).1
  · rcases List.mem_append.mp he with he | he
    · exact (hw.committed_le e he).trans hle
    · exact (hcontinues.bounds e he).2

theorem StreamWorld.Current.step (action : StreamAction) : (w.step controller action).Current spec := by
  have hwrite : ∀ chunk : StreamFrame, content [chunk] = [] →
      ({ w with stream := (w.stream.write controller chunk).1 } : StreamWorld).Current spec := by
    intro chunk hchunk
    obtain ⟨hsends, hlast, -⟩ := w.stream.write_sends controller chunk
    have hnext := hw.sends (.refl w.db) (hchunk ▸ hsends) (hlast ▸ hw.lastSent_le)
    simpa using hnext
  cases action with
  | append batch =>
    rw [StreamWorld.step]
    split
    · exact hw
    · rename_i db written happ
      have hcontinues := Db.append_continues happ
      cases hended : w.stream.ended with
      | true =>
        refine hw.sends hcontinues ?_ (hw.lastSent_le.trans hcontinues.le)
        exact (OpenStream.Sends.refl w.stream).of_ended hended
      | false =>
        have hevents : (written.filter fun e => spec.kind.accepts e.frame).map
            (fun e => StreamFrame.event e.frame) =
              ((written.map (·.toWireEvent)).filter w.stream.kind.accepts).map eventFrame := by
          simp [List.filter_map, Function.comp_def, accepts_toWireEvent, eventFrame_toWireEvent, hw.kind]
        have hlater : ∀ e ∈ written.map (·.toWireEvent), w.stream.lastSent < e.sequence ∧ e.sequence ≤ db.seq :=
          List.forall_mem_map.mpr fun e he =>
            ⟨hw.lastSent_le.trans_lt (hcontinues.bounds e he).1, (hcontinues.bounds e he).2⟩
        obtain ⟨hsends, hlast⟩ := OpenStream.onCommitted_sends controller
          (List.pairwise_map.mpr hcontinues.sorted) hlater (hw.lastSent_le.trans hcontinues.le)
        exact hw.sends hcontinues (hevents ▸ hsends) hlast
  | ping => exact hwrite _ rfl
  | build => exact hwrite _ rfl
  | endStream =>
    refine ⟨hw.kind, ⟨hw.sent.upToEnd, fun hopen => ?_, hw.sent.later, hw.sent.sorted⟩,
      hw.synced_le, hw.lastSent_le, hw.committed_le⟩
    simp [StreamWorld.step] at hopen

theorem StreamWorld.Current.run (actions : List StreamAction) : (w.run controller actions).Current spec := by
  induction actions generalizing w with
  | nil => exact hw
  | cons action actions ih => exact ih (hw.step action)

end

/-! ### Opening -/

theorem StreamRequest.reconcile_continues (request : StreamRequest) (db : Db) :
    db.Continues (request.reconcile db).2 (request.reconcile db).1 := by
  unfold reconcile
  split
  · exact .refl db
  · exact .refl db
  · split
    · rename_i happ
      exact Db.append_continues happ
    · exact .refl db

section

variable (h : spec.CatchesUp db after)
include h

theorem StreamSpec.CatchesUp.content_catchUp : content spec.catchUp = spec.catchUp := by
  refine List.filter_eq_self.mpr fun frame hframe => ?_
  rcases h.catchUp with ⟨only, hsnapshot, honly⟩ | hreplay
  · rw [honly] at hframe
    obtain rfl := List.mem_singleton.mp hframe
    cases hkind : spec.kind with
    | shell =>
      obtain rfl := Option.some.inj (hkind ▸ hsnapshot)
      rfl
    | thread threadId =>
      rw [hkind] at hsnapshot
      obtain ⟨snapshot, -, rfl⟩ := Option.map_eq_some_iff.mp hsnapshot
      rfl
  · rw [hreplay] at hframe
    obtain ⟨e, -, rfl⟩ := List.mem_map.mp hframe
    rfl

theorem openStream_sends (controller : Nat → Enqueued) :
    (openStream controller spec).kind = spec.kind ∧ content (openStream controller spec).sent <+: spec.owes [] ∧
      ((openStream controller spec).ended = false → content (openStream controller spec).sent = spec.owes []) ∧
      (openStream controller spec).lastSent = spec.synced := by
  obtain ⟨hsends, hlast⟩ := ({ kind := spec.kind, lastSent := spec.synced, ended := false
                               sent := [] } : OpenStream).writeAll_sends controller
    (spec.catchUp ++ [.synchronized spec.synced])
  have howes : content (spec.catchUp ++ [.synchronized spec.synced]) = spec.owes [] := by
    rw [content_append, h.content_catchUp]
    rfl
  rw [howes] at hsends
  exact ⟨hsends.kind, hsends.upToEnd, fun hopen => (hsends.whole hopen).2, hlast⟩

theorem StreamWorld.opened_current (hquiet : ∀ e ∈ (request.reconcile db).2, spec.kind.accepts e.frame = false) :
    (opened controller db request spec).Current spec := by
  have hcontinues := request.reconcile_continues db
  have hsynced : spec.synced = db.seq := h.synced
  obtain ⟨hkind, hprefix, hwhole, hlast⟩ := openStream_sends h controller
  have howes : spec.owes (request.reconcile db).2 = spec.owes [] := by
    rw [← List.nil_append (request.reconcile db).2, StreamSpec.owes_append,
      List.filter_eq_nil_iff.mpr fun e he => by simp [hquiet e he], List.map_nil, List.append_nil]
  refine ⟨hkind, ⟨?_, fun hopen => ?_, fun e he => ?_, hcontinues.sorted⟩, ?_, ?_, fun e he => ?_⟩
  · exact howes ▸ hprefix
  · exact howes ▸ hwhole hopen
  · exact hsynced ▸ (hcontinues.bounds e he).1
  · exact hsynced ▸ hcontinues.le
  · exact hlast ▸ hsynced ▸ hcontinues.le
  · exact (hcontinues.bounds e he).2

end

theorem ended_writeAll_taken (hopen : s.ended = false) (chunks : List StreamFrame) :
    (s.writeAll (fun _ => .taken) chunks).ended = false := by
  induction chunks generalizing s with
  | nil => exact hopen
  | cons chunk chunks ih =>
    have hwrite : s.write (fun _ => .taken) chunk = ({ s with sent := s.sent ++ [chunk] }, true) := by
      simp [OpenStream.write, hopen]
    rw [OpenStream.writeAll, hwrite]
    exact ih hopen

/-- A stream skips nothing, whatever its client does and whatever is appended next, exactly when its own
opening appends no event that it accepts. -/
theorem neverSkips_iff {history : List Batch} {db : Db} {earlier : List (List StoredEvent)}
    {request : StreamRequest} {after : Nat} {spec : StreamSpec}
    (hdb : Db.empty.appends history = .ok (db, earlier))
    (hroute : request.route db after = some spec) :
    NeverSkips db request after spec ↔ ∀ e ∈ (request.reconcile db).2, request.kind.accepts e.frame = false := by
  obtain ⟨hcatch, hkind⟩ := StreamRequest.route_catchesUp (Db.Ordered.empty.appends hdb) hroute
  rw [← hkind]
  constructor
  · intro h
    obtain ⟨-, -, hwhole, -⟩ := openStream_sends hcatch fun _ => .taken
    have hopen : (openStream (fun _ => .taken) spec).ended = false := ended_writeAll_taken rfl _
    have hsent := ((h.2 (fun _ => .taken) []).whole hopen).symm.trans (hwhole hopen)
    have hnone : spec.owes (request.reconcile db).2 = spec.owes [] := hsent
    rw [← List.nil_append (request.reconcile db).2, StreamSpec.owes_append] at hnone
    have hfilter := List.map_eq_nil_iff.mp (List.append_right_eq_self.mp hnone)
    simpa [List.filter_eq_nil_iff] using hfilter
  · intro hquiet
    exact ⟨hcatch, fun controller actions =>
      ((StreamWorld.opened_current hcatch hquiet).run actions).sent⟩

/-- A thread whose agent finished and that nobody looked at yet. -/
def unreadHistory : List Batch :=
  [{ drafts := [createProject (testProject "w1"),
      createThread { testThread "t1" with status := .done, unreadDone := true }], ts := 1000 }]

/-- What the herd ingest appends once the thread's pane is marked seen. -/
def seenBatch : Batch :=
  { drafts := [{ threadId := some "t1"
                 payload := .threadUpdated { unreadDone := .val false, status := .val .idle } 2000 }]
    ts := 2000 }

/-- A stream of a thread that was read already skips nothing. -/
theorem thread_stream_read : ∃ r spec, Db.empty.appends unreadHistory = .ok r ∧
      (StreamRequest.thread "t1" none).route r.1 0 = some spec ∧
      NeverSkips r.1 (.thread "t1" none) 0 spec :=
  ⟨_, _, rfl, rfl, (@neverSkips_iff unreadHistory _ _ (.thread "t1" none) 0 _ rfl rfl).mpr (by decide)⟩

/-- Opening an unread thread marks it seen; the event that says so is after the catch-up and before
the live listener. -/
theorem thread_stream_skips_seen : ¬ ∀ (history : List Batch) (db : Db) (earlier : List (List StoredEvent))
      (request : StreamRequest) (after : Nat) (spec : StreamSpec),
      Db.empty.appends history = .ok (db, earlier) → request.route db after = some spec →
      NeverSkips db request after spec := by
  intro h
  have hsent := ((h unreadHistory _ _ (.thread "t1" (some seenBatch)) 0 _ rfl rfl).2 (fun _ => .taken) []).whole rfl
  revert hsent
  decide

end Sightr
