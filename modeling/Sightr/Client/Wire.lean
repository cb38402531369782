import Sightr.Client.Reducer
import Sightr.Store.Replay

/-!
# One thread on both sides of the wire

The bridge and the browser each rewrite a thread from an event, the bridge on its row and the browser
on its copy. Where the patch clears nothing through `undefined`, which a frame's JSON drops, the two
make the same thread, an unset flag and an absent one being the same.
-/

namespace Sightr

variable (event : StoredEvent)

/-- The event as the JSON text of a stream's frame gives it. -/
def StoredEvent.frame : ThreadEvent := event.toJson.toWireEvent

theorem StoredEvent.type_frame : event.frame.payload.type = event.payload.type := by
  rw [frame, type_toWireEvent]
  exact Payload.type_toJson event.payload

@[simp] theorem StoredEvent.sequence_frame : event.frame.sequence = event.sequence := rfl

@[simp] theorem StoredEvent.threadId_frame : event.frame.threadId = event.threadId := rfl

@[simp] theorem StoredEvent.payload_frame : event.frame.payload = ServerPayload.toWire event.payload.toJson := rfl

namespace Client

/-! ### The checks -/

variable {p p' : Projection} {event : StoredEvent}

theorem check_frame (htype : event.payload.type ≠ .runUpdated) (h : p.applyEvent event = .ok p') :
    check event.frame = .ok := by
  have hid {threadId : String} (hreq : requireThreadId event = .ok threadId) : event.threadId.isSome = true := by
    rw [(requireThreadId_eq_ok.mp hreq).1]
    rfl
  unfold Projection.applyEvent at h
  unfold check
  cases hpay : event.payload with
  | runUpdated run => simp [hpay, Payload.type] at htype
  | threadUpdated patch at_ | threadShelfChanged shelf snoozedUntil pinOrder at_
  | threadArchived reason at_ =>
    simp only [hpay, Projection.rewriteThread_eq_ok] at h
    obtain ⟨threadId, thread, next, hthread, -⟩ := h
    simp [hpay, Payload.toJson, ServerPayload.toWire, hthread]
  | threadDeleted at_ | queueUpdated messages change reason =>
    simp only [hpay] at h
    obtain ⟨threadId, hreq, -⟩ := Except.bind_eq_ok.mp h
    simp [hpay, Payload.toJson, ServerPayload.toWire, hid hreq]
  | _ => simp [hpay, Payload.toJson, ServerPayload.toWire]

/-! ### Threads, with absent and false flags identified -/

def setFlag (v : Option Bool) : Option Bool := v.filter (· = true)

/-- The thread with its `compacting` flag absent when it is not set. -/
def withoutFalseFlags (thread : Thread) : Thread := { thread with compacting := setFlag thread.compacting }

theorem withoutFalseFlags_eq_iff {a b : Thread} : withoutFalseFlags a = withoutFalseFlags b ↔
      a = { b with compacting := a.compacting } ∧ setFlag a.compacting = setFlag b.compacting := by
  constructor
  · intro h
    refine ⟨?_, congrArg (·.compacting) h⟩
    obtain ⟨⟩ := a
    obtain ⟨⟩ := b
    simp only [withoutFalseFlags, ThreadOf.mk.injEq] at h ⊢
    simp only [h, and_self]
  · rintro ⟨ha, hflag⟩
    rw [withoutFalseFlags, hflag, ha]
    rfl

theorem withoutFalseFlags_threadParams (thread : ServerThread) :
    withoutFalseFlags (toWireThread (threadParams thread)) = withoutFalseFlags (toWireThread thread) := by
  simp only [withoutFalseFlags, toWireThread, threadParams, setFlag]
  split_ifs with h
  · simp [h]
  · cases hc : thread.compacting with
    | none => rfl
    | some v =>
      cases v with
      | true => exact absurd hc h
      | false => rfl

/-! ### One thread event on both sides -/

variable {α : Type} {f : JsField α}

theorem patchValue_of_overColumn {column : String} {old v : α} (h : f.overColumn column old = .ok v) :
    patchValue f.toJson old = v := by
  cases f with
  | absent => exact Except.ok.inj h
  | undef => cases h
  | val a => exact Except.ok.inj h

theorem over_toJson_of_findsEmpty {old : Option α} (h : f.FindsEmpty old) :
    f.toJson.spreadOver old = f.spreadOver old := by
  cases f with
  | undef => simp [h rfl]
  | absent => rfl
  | val a => rfl

theorem patchValue_unreadDone {f : JsField Bool} {old : Bool} (h : f = .undef → old = false) :
    patchValue f.toJson old = (f.spreadOver (some old)).getD false := by
  cases f with
  | undef => simp [h rfl, patchValue]
  | absent => rfl
  | val a => rfl

theorem setFlag_over {f : JsField Bool} {a b : Option Bool} (hab : setFlag a = setFlag b)
    (h : f.FindsEmpty b) : setFlag (f.toJson.spreadOver a) = setFlag (f.spreadOver b) := by
  cases f with
  | undef =>
    rw [h rfl] at hab
    exact hab
  | absent => exact hab
  | val a => rfl

theorem overRef_toWirePatch (patch : ServerThreadPatch) (old : Option AgentSessionRef) :
    (toWirePatch patch.toJson).sessionRef.overRef (wireSessionRef old) =
      wireSessionRef (patch.sessionRef.overRef old) := by
  cases h : patch.sessionRef <;> simp [toWirePatch, ThreadPatchOf.toJson, h, JsField.overRef]

variable {thread : ServerThread} {mine : Thread} {at_ : Int}

theorem patched_toWire {next : ServerThread} {patch : ServerThreadPatch} (hclear : ClearsNothing thread patch)
    (hmine : withoutFalseFlags mine = withoutFalseFlags (toWireThread thread))
    (h : ServerThread.patched thread patch at_ = .ok next) :
    withoutFalseFlags (patched mine (toWirePatch patch.toJson) at_) =
      withoutFalseFlags (toWireThread (threadParams next)) := by
  rw [withoutFalseFlags_threadParams]
  unfold ServerThread.patched at h
  obtain ⟨title, htitle, h⟩ := Except.bind_eq_ok.mp h
  obtain ⟨titleSource, htitleSource, h⟩ := Except.bind_eq_ok.mp h
  obtain ⟨harness, hharness, h⟩ := Except.bind_eq_ok.mp h
  obtain ⟨status, hstatus, h⟩ := Except.bind_eq_ok.mp h
  obtain ⟨lastActivityAt, hlast, h⟩ := Except.bind_eq_ok.mp h
  obtain ⟨capabilities, hcaps, h⟩ := Except.bind_eq_ok.mp h
  obtain ⟨terminalId, hterminal, h⟩ := Except.bind_eq_ok.mp h
  cases h
  obtain ⟨hmine, hflag⟩ := withoutFalseFlags_eq_iff.mp hmine
  rw [hmine, withoutFalseFlags_eq_iff]
  refine ⟨?_, setFlag_over hflag hclear.compacting⟩
  simp only [patched, toWireThread, toWirePatch, ThreadPatchOf.toJson,
    patchValue_of_overColumn htitle, patchValue_of_overColumn htitleSource,
    patchValue_of_overColumn hharness, patchValue_of_overColumn hstatus,
    patchValue_of_overColumn hlast, patchValue_of_overColumn hcaps,
    patchValue_of_overColumn hterminal, patchValue_unreadDone hclear.unreadDone,
    over_toJson_of_findsEmpty hclear.permissionMode, over_toJson_of_findsEmpty hclear.model,
    over_toJson_of_findsEmpty hclear.contextUsage, over_toJson_of_findsEmpty hclear.paneAlive,
    ← overRef_toWirePatch]

section

variable (hmine : withoutFalseFlags mine = withoutFalseFlags (toWireThread thread))
include hmine

theorem shelfChanged_toWire {shelf : Shelf} {snoozedUntil : Option Int} {pinOrder : Option Rat} :
    withoutFalseFlags (shelfChanged mine shelf snoozedUntil pinOrder at_) = withoutFalseFlags
        (toWireThread (threadParams (thread.reshelved shelf snoozedUntil pinOrder at_))) := by
  rw [withoutFalseFlags_threadParams]
  obtain ⟨hmine, hflag⟩ := withoutFalseFlags_eq_iff.mp hmine
  rw [hmine, withoutFalseFlags_eq_iff]
  exact ⟨rfl, hflag⟩

theorem archived_toWire {reason : ArchiveReason} : withoutFalseFlags (archived mine reason at_) =
      withoutFalseFlags (toWireThread (threadParams (thread.archived reason at_))) := by
  rw [withoutFalseFlags_threadParams]
  obtain ⟨hmine, hflag⟩ := withoutFalseFlags_eq_iff.mp hmine
  rw [hmine, withoutFalseFlags_eq_iff]
  exact ⟨rfl, hflag⟩

end

/-! ### The three events that rewrite a thread -/

/-- The types whose event rewrites one thread from its old value. -/
def THREAD_PATCH_TYPES : List ThreadEventType := [.threadUpdated, .threadShelfChanged, .threadArchived]

/-- An accepted event of such a type rewrites the thread it names, and a client's copy of that thread
the same way. -/
theorem patchThread_mirrors (htype : event.payload.type ∈ THREAD_PATCH_TYPES) (hclear : p.ClearsNothing event)
    (h : p.applyEvent event = .ok p') :
    ∃ threadId thread row, event.threadId = some threadId ∧ threadId ≠ "" ∧
      p.threads.find? threadId = some thread ∧ row.id = threadId ∧
      p' = { p with threads := p.threads.set row } ∧
      ∀ mine, withoutFalseFlags mine = withoutFalseFlags (toWireThread thread) →
        ∃ next, patchThread mine event.frame = some next ∧
          withoutFalseFlags next = withoutFalseFlags (toWireThread row) := by
  unfold Projection.applyEvent at h
  unfold Projection.ClearsNothing at hclear
  simp only [THREAD_PATCH_TYPES, List.mem_cons, List.not_mem_nil, or_false] at htype
  have hkey {t : ServerThread} {id : String} (ht : p.threads.find? id = some t) : t.id = id :=
    Keyed.Table.key_of_find? ht
  cases hpay : event.payload with
  | threadUpdated patch at_ =>
    simp only [hpay, Projection.rewriteThread_eq_ok] at h
    obtain ⟨threadId, thread, next, hid, hne, hfind, hnext, -, rfl⟩ := h
    simp only [hpay, hid, Option.bind_some, hfind] at hclear
    have hwire (mine : Thread) (hmine : withoutFalseFlags mine = withoutFalseFlags (toWireThread thread)) :
        withoutFalseFlags (patched mine (toWirePatch patch.toJson) at_) =
          withoutFalseFlags (toWireThread (threadParams next)) :=
      patched_toWire hclear hmine hnext
    have hrow : (threadParams next).id = thread.id := (congrArg ThreadOf.id (hwire (toWireThread thread) rfl)).symm
    refine ⟨threadId, thread, threadParams next, hid, hne, hfind, hrow.trans (hkey hfind), rfl,
      fun mine hmine => ⟨_, ?_, hwire mine hmine⟩⟩
    simp only [patchThread, StoredEvent.payload_frame, hpay, Payload.toJson, ServerPayload.toWire]
  | threadShelfChanged shelf snoozedUntil pinOrder at_ =>
    simp only [hpay, Projection.rewriteThread_eq_ok] at h
    obtain ⟨threadId, thread, next, hid, hne, hfind, ⟨⟩, -, rfl⟩ := h
    have hrow : thread.id = threadId := hkey hfind
    refine ⟨threadId, thread, threadParams (thread.reshelved shelf snoozedUntil pinOrder at_), hid, hne, hfind,
      hrow, rfl, fun mine hmine => ⟨_, ?_, shelfChanged_toWire hmine⟩⟩
    simp only [patchThread, StoredEvent.payload_frame, hpay, Payload.toJson, ServerPayload.toWire]
  | threadArchived reason at_ =>
    simp only [hpay, Projection.rewriteThread_eq_ok] at h
    obtain ⟨threadId, thread, next, hid, hne, hfind, ⟨⟩, -, rfl⟩ := h
    have hrow : thread.id = threadId := hkey hfind
    refine ⟨threadId, thread, threadParams (thread.archived reason at_), hid, hne, hfind,
      hrow, rfl, fun mine hmine => ⟨_, ?_, archived_toWire hmine⟩⟩
    simp only [patchThread, StoredEvent.payload_frame, hpay, Payload.toJson, ServerPayload.toWire]
  | _ => simp [hpay, Payload.type] at htype

end Client

end Sightr
