import Sightr.Client.Shell
import Sightr.Routes.Stream
import Sightr.Store.Threads

/-!
# A sidebar that resumes

The shell stream of one client (`web2/src/stream/shell-stream.ts`) over a store that appends and
prunes. The client opens the stream at its cursor, takes frames one by one, may lose the connection at
any frame and opens it again; `shellRoute` answers with the events it missed or with a snapshot.

A replay leaves out the events of threads deleted since, whose deletion it ends with. A thread that a
prune removes has no such event: a client that resumes past the prune by replay keeps it.
-/

namespace Sightr.Client

open Keyed (Table)

/-! ### The client -/

def EMPTY_SHELL : ShellState where
  sequence := 0
  loaded := false
  projects := .empty
  threads := .empty
  requests := .empty

/-- The sidebar and the sequence a reconnect resumes from. -/
structure ShellClient where
  state : ShellState
  cursor : Nat
  deriving DecidableEq

/-- What the shell stream's handlers make of a frame. -/
def ShellClient.receive (c : ShellClient) : StreamFrame → ShellClient
  | .shellSnapshot snapshot => ⟨shellFromSnapshot snapshot, snapshot.sequence⟩
  | .event e => ⟨applyShellEvent c.state e, max c.cursor e.sequence⟩
  | .synchronized sequence => { c with cursor := max c.cursor sequence }
  | .threadSnapshot _ | .reset _ | .ping _ | .build => c

/-! ### The store, the client and the stream between them -/

structure Sidebar where
  ledger : Ledger
  client : ShellClient
  /-- The frames the stream was given and the client has not taken; none while it is not connected. -/
  pipe : Option (List StreamFrame)
  deriving DecidableEq

inductive SidebarAction
  | op (op : StoreOp)
  /-- The client connects, with its cursor as `?after=`. -/
  | connect
  | take
  /-- The connection is lost, with what the client has not taken. -/
  | lose
  deriving DecidableEq

namespace Sidebar

def new : Sidebar where
  ledger := .new
  client := ⟨EMPTY_SHELL, 0⟩
  pipe := none

def liveFrames (written : List StoredEvent) : List StreamFrame :=
  (written.filter fun e => StreamKind.shell.accepts e.frame).map fun e => .event e.frame

def step (w : Sidebar) : SidebarAction → Option Sidebar
  | .op op =>
    (w.ledger.step op).map fun ledger =>
      { w with
        ledger
        pipe := w.pipe.map (· ++ liveFrames (ledger.written.drop w.ledger.written.length)) }
  | .connect => some { w with pipe := some ((shellRoute w.ledger.db w.client.cursor).owes []) }
  | .take =>
    match w.pipe with
    | some (frame :: frames) =>
      some { w with client := w.client.receive frame, pipe := some frames }
    | _ => none
  | .lose => some { w with pipe := none }

/-- The client once it has taken the catch-up of a stream opened now. -/
def resumed (w : Sidebar) : ShellClient :=
  ((shellRoute w.ledger.db w.client.cursor).owes []).foldl ShellClient.receive w.client

end Sidebar

/-! ### Agreement of the lists -/

/-- The sidebars list the same projects and the same threads. -/
structure ShellState.SameLists (s t : ShellState) : Prop where
  projects : ∀ id, s.projects.has id = t.projects.has id
  threads : ∀ id, s.threads.has id = t.threads.has id

/-- The sidebars hold the same projects and the same threads, absent and false flags identified. -/
structure ShellState.SameListed (s t : ShellState) : Prop where
  projects : ∀ id, s.projects.find? id = t.projects.find? id
  threads : ∀ id, (s.threads.find? id).map withoutFalseFlags = (t.threads.find? id).map withoutFalseFlags

/-! ### What is in the lists, and the records in them -/

theorem seenAlike_presence (p : Projection) (event : StoredEvent) :
    SeenAlike (fun _ => ()) (fun _ => ()) p event where
  created _ _ := rfl
  upserted _ _ := rfl
  closed _ _ _ _ _ _ := rfl
  patch p' h htype := by
    unfold Projection.applyEvent at h
    cases hpay : event.payload with
    | threadUpdated patch at_ =>
      simp only [hpay, Projection.rewriteThread_eq_ok] at h
      obtain ⟨threadId, thread, next, hid, hne, hfind, hnext, -, rfl⟩ := h
      refine ⟨threadId, thread, threadParams next, hid, hne, hfind,
        (ServerThread.status_patched hnext).1.trans (Table.key_of_find? hfind), rfl, fun mine hmine _ =>
        ⟨patched mine (toWirePatch patch.toJson) at_, ?_, hmine, rfl⟩⟩
      simp only [patchThread, StoredEvent.payload_frame, hpay, Payload.toJson, ServerPayload.toWire]
    | threadShelfChanged shelf snoozedUntil pinOrder at_ =>
      simp only [hpay, Projection.rewriteThread_eq_ok] at h
      obtain ⟨threadId, thread, next, hid, hne, hfind, ⟨⟩, -, rfl⟩ := h
      have hrow : thread.id = threadId := Table.key_of_find? hfind
      refine ⟨threadId, thread, threadParams (thread.reshelved shelf snoozedUntil pinOrder at_), hid,
        hne, hfind, hrow, rfl, fun mine hmine _ =>
        ⟨shelfChanged mine shelf snoozedUntil pinOrder at_, ?_, hmine, rfl⟩⟩
      simp only [patchThread, StoredEvent.payload_frame, hpay, Payload.toJson, ServerPayload.toWire]
    | threadArchived reason at_ =>
      simp only [hpay, Projection.rewriteThread_eq_ok] at h
      obtain ⟨threadId, thread, next, hid, hne, hfind, ⟨⟩, -, rfl⟩ := h
      have hrow : thread.id = threadId := Table.key_of_find? hfind
      refine ⟨threadId, thread, threadParams (thread.archived reason at_), hid, hne, hfind, hrow, rfl,
        fun mine hmine _ => ⟨archived mine reason at_, ?_, hmine, rfl⟩⟩
      simp only [patchThread, StoredEvent.payload_frame, hpay, Payload.toJson, ServerPayload.toWire]
    | _ => simp [hpay, THREAD_PATCH_TYPES, Payload.type] at htype

/-! ### Events of a thread that is deleted later -/

/-- A project's event names no thread, a created thread's event names that thread. -/
def Addressed (event : StoredEvent) : Prop :=
  match event.payload with
  | .projectUpserted _ | .projectClosed .. => event.threadId = none
  | .threadCreated thread => event.threadId = some thread.id
  | _ => True

instance (event : StoredEvent) : Decidable (Addressed event) := by
  unfold Addressed
  generalize event.payload = payload
  apply @Payload.casesOn _ _ _ _ payload <;> intros <;> infer_instance

structure OffThread (threadId : String) (s t : ShellState) : Prop where
  projects : ∀ id, s.projects.find? id = t.projects.find? id
  threads : ∀ id, id ≠ threadId → s.threads.find? id = t.threads.find? id

namespace OffThread

variable {threadId : String} {s t : ShellState} {event : StoredEvent}

theorem refl (s : ShellState) : OffThread threadId s s := ⟨fun _ => rfl, fun _ _ => rfl⟩

theorem id_of_patchThread {thread next : Thread} {e : ThreadEvent}
    (h : patchThread thread e = some next) : next.id = thread.id := by
  unfold patchThread at h
  split at h <;> cases h <;> rfl

section

variable (h : OffThread threadId s t)
include h

theorem shellEvent (hother : event.threadId ≠ some threadId) :
    OffThread threadId (Client.shellEvent s event.frame) (Client.shellEvent t event.frame) := by
  have hlookup : (event.frame.threadId.filter (· ≠ "")).bind s.threads.find? =
      (event.frame.threadId.filter (· ≠ "")).bind t.threads.find? := by
    cases hid : event.frame.threadId.filter (· ≠ "") with
    | none => rfl
    | some id =>
      refine h.threads id fun hsame => hother ?_
      rw [← hsame]
      exact (Option.filter_eq_some_iff.mp hid).1
  unfold Client.shellEvent
  split
  · refine ⟨fun id => ?_, h.threads⟩
    rw [Table.find?_set, Table.find?_set, h.projects]
  · rename_i projectId closedAt _
    rw [← h.projects projectId]
    split
    · exact h
    · refine ⟨fun id => ?_, h.threads⟩
      rw [Table.find?_set, Table.find?_set, h.projects]
  · refine ⟨h.projects, fun id hid => ?_⟩
    rw [Table.find?_set, Table.find?_set, h.threads id hid]
  all_goals first
    | (rw [← hlookup]
       split
       · exact h
       · split
         · exact h
         · refine ⟨h.projects, fun id hid => ?_⟩
           rw [Table.find?_set, Table.find?_set, h.threads id hid])
    | (refine ⟨h.projects, fun id hid => ?_⟩
       rw [Table.find?_filter, Table.find?_filter, h.threads id hid])
    | exact ⟨h.projects, h.threads⟩

theorem shellEvent_left (haddressed : Addressed event) (hown : event.threadId = some threadId) :
    OffThread threadId (Client.shellEvent s event.frame) t := by
  unfold Addressed at haddressed
  unfold Client.shellEvent
  cases hpay : event.payload with
  | projectUpserted | projectClosed =>
    rw [hpay, hown] at haddressed
    cases haddressed
  | threadCreated thread =>
    rw [hpay, hown] at haddressed
    simp only [StoredEvent.payload_frame, hpay, Payload.toJson, ServerPayload.toWire]
    refine ⟨h.projects, fun id hid => ?_⟩
    have hne : (toWireThread thread).id ≠ id := fun hsame =>
      hid (hsame.symm.trans (Option.some.inj haddressed).symm)
    rw [Table.find?_set_of_ne _ hne, h.threads id hid]
  | threadDeleted at_ =>
    simp only [StoredEvent.payload_frame, hpay, Payload.toJson, ServerPayload.toWire,
      StoredEvent.threadId_frame, hown]
    refine ⟨h.projects, fun id hid => ?_⟩
    rw [Table.find?_filter, h.threads id hid]
    cases hfind : t.threads.find? id with
    | none => rfl
    | some thread =>
      have hkey := Table.key_of_find? hfind
      simp [hkey, hid]
  | threadUpdated | threadShelfChanged | threadArchived =>
    simp only [StoredEvent.payload_frame, hpay, Payload.toJson, ServerPayload.toWire,
      StoredEvent.threadId_frame, hown]
    split
    · exact h
    · rename_i mine hmine
      split
      · exact h
      · rename_i next hnext
        refine ⟨h.projects, fun id hid => ?_⟩
        obtain ⟨found, hfound, hmine⟩ := Option.bind_eq_some_iff.mp hmine
        have hkey : next.id = threadId := by
          rw [id_of_patchThread hnext, Table.key_of_find? hmine]
          exact (Option.some.inj (Option.filter_eq_some_iff.mp hfound).1).symm
        have hne : next.id ≠ id := fun hsame => hid (hsame.symm.trans hkey)
        rw [Table.find?_set_of_ne _ hne, h.threads id hid]
  | _ =>
    simp only [StoredEvent.payload_frame, hpay, Payload.toJson, ServerPayload.toWire]
    exact ⟨h.projects, h.threads⟩

theorem shellEvent_deleted (htype : event.payload.type = .threadDeleted) (hown : event.threadId = some threadId) :
    (∀ id, (Client.shellEvent s event.frame).projects.find? id =
      (Client.shellEvent t event.frame).projects.find? id) ∧
    ∀ id, (Client.shellEvent s event.frame).threads.find? id =
      (Client.shellEvent t event.frame).threads.find? id := by
  cases hpay : event.payload with
  | threadDeleted at_ =>
    unfold Client.shellEvent
    simp only [StoredEvent.payload_frame, hpay, Payload.toJson, ServerPayload.toWire,
      StoredEvent.threadId_frame, hown]
    refine ⟨h.projects, fun id => ?_⟩
    rw [Table.find?_filter, Table.find?_filter]
    by_cases hid : id = threadId
    · have hnone {state : ShellState} : (state.threads.find? id).filter
          (fun t => decide (some t.id ≠ some threadId)) = none := by
        cases hfind : state.threads.find? id with
        | none => rfl
        | some thread => simp [Table.key_of_find? hfind, hid]
      rw [hnone, hnone]
    · rw [h.threads id hid]
  | _ => simp [hpay, Payload.type] at htype

end

variable {l : List StoredEvent}

theorem foldl_shellFrames_cons {s : ShellState} {event : StoredEvent} (hfresh : s.sequence < event.sequence) :
    (shellFrames (event :: l)).foldl applyShellEvent s = (shellFrames l).foldl applyShellEvent
      (if event.payload.type ∈ SHELL_EVENT_TYPES ∧ check event.frame = .ok then
        Client.shellEvent s event.frame else s) := by
  by_cases htype : event.payload.type ∈ SHELL_EVENT_TYPES
  · have hframes : shellFrames (event :: l) = event.frame :: shellFrames l := by
      simp [shellFrames, htype]
    rw [hframes, List.foldl_cons]
    congr 1
    unfold applyShellEvent
    cases hcheck : check event.frame <;> simp [htype, Nat.not_le.mpr hfresh]
  · have hframes : shellFrames (event :: l) = shellFrames l := by simp [shellFrames, htype]
    rw [hframes, if_neg fun h => htype h.1]

def After (n : Nat) (l : List StoredEvent) : Prop :=
  (∀ e ∈ l, n < e.sequence) ∧ l.Pairwise (·.sequence < ·.sequence)

theorem foldl_filter {n : Nat} (h : OffThread threadId s t) (hs : s.sequence ≤ n) (ht : t.sequence ≤ n)
    (hafter : After n l) (haddressed : ∀ e ∈ l, Addressed e) :
    OffThread threadId ((shellFrames l).foldl applyShellEvent s)
      ((shellFrames (l.filter fun e => e.threadId ≠ some threadId)).foldl applyShellEvent t) := by
  induction l generalizing n s t with
  | nil => exact h
  | cons event l ih =>
    obtain ⟨hgt, hsorted⟩ := hafter
    rw [List.pairwise_cons] at hsorted
    have hevent := hgt event List.mem_cons_self
    have hrest : After event.sequence l := ⟨hsorted.1, hsorted.2⟩
    have haddressed' : ∀ e ∈ l, Addressed e := fun e he =>
      haddressed e (List.mem_cons_of_mem _ he)
    have hle {state : ShellState} (hstate : state.sequence ≤ n) : (if event.payload.type ∈
        SHELL_EVENT_TYPES ∧ check event.frame = .ok then Client.shellEvent state event.frame
        else state).sequence ≤ event.sequence := by
      split_ifs
      · exact shellEvent_sequence_le (hstate.trans hevent.le) le_rfl
      · exact hstate.trans hevent.le
    rw [foldl_shellFrames_cons (hs.trans_lt hevent)]
    by_cases hown : event.threadId = some threadId
    · rw [List.filter_cons_of_neg (by simpa using hown)]
      refine ih ?_ (hle hs) (ht.trans hevent.le) hrest haddressed'
      split_ifs
      · exact h.shellEvent_left (haddressed event List.mem_cons_self) hown
      · exact h
    · rw [List.filter_cons_of_pos (by simpa using hown), foldl_shellFrames_cons (ht.trans_lt hevent)]
      refine ih ?_ (hle hs) (hle ht) hrest haddressed'
      split_ifs
      · exact h.shellEvent hown
      · exact h

end OffThread

/-! ### A client and the events it has not seen -/

/-- The sidebar once it has applied every stored event past the client's cursor. -/
def ShellClient.caughtUp (c : ShellClient) (db : Db) : ShellState :=
  (shellFrames (db.selectEvents c.cursor)).foldl applyShellEvent c.state

section

variable {α β : Type} {f : Thread → α} {g : Project → β}

/-- From a cursor that is replayed from, the client will list what the tables hold. -/
structure Caught (f : Thread → α) (g : Project → β) (db : Db) (c : ShellClient) : Prop where
  sequence_le : c.state.sequence ≤ c.cursor
  cursor_le : c.cursor ≤ db.seq
  agrees : 0 < c.cursor → db.minSequence ≤ c.cursor → ListsAgree f g (c.caughtUp db) db.projection

/-- The client lists what the tables hold, and no stored event of the shell is past its cursor. -/
structure Live (f : Thread → α) (g : Project → β) (db : Db) (c : ShellClient) : Prop where
  sequence_le : c.state.sequence ≤ c.cursor
  cursor_le : c.cursor ≤ db.seq
  agrees : ListsAgree f g c.state db.projection
  seen : ∀ e ∈ db.events, e.payload.type ∈ SHELL_EVENT_TYPES → e.sequence ≤ c.cursor

theorem frame_toJson (event : StoredEvent) : event.toJson.frame = event.frame := by
  rw [StoredEvent.frame, StoredEvent.toJson_toJson, StoredEvent.frame]

theorem shellFrames_append (l l' : List StoredEvent) : shellFrames (l ++ l') = shellFrames l ++ shellFrames l' := by
  simp [shellFrames]

theorem shellFrames_toJson (event : StoredEvent) : shellFrames [event.toJson] = shellFrames [event] := by
  have htype : event.toJson.payload.type = event.payload.type := Payload.type_toJson event.payload
  simp only [shellFrames, List.filter_cons, List.filter_nil, htype]
  split_ifs
  · rw [List.map_singleton, List.map_singleton, frame_toJson]
  · rfl

variable {event : StoredEvent}

theorem addressed_toJson (h : Addressed event) : Addressed event.toJson := by
  obtain ⟨sequence, threadId, commandId, payload, ts⟩ := event
  cases payload <;> exact h

theorem selectEvents_eq (db : Db) (n : Nat) :
    db.selectEvents n = db.events.filter fun e => decide (n < e.sequence) := by
  simp [Db.selectEvents, Db.EventsAfterOptions.admits]

variable {l : List StoredEvent}

theorem shellFrames_eq_nil (h : ∀ e ∈ l, e.payload.type ∉ SHELL_EVENT_TYPES) : shellFrames l = [] := by
  simp only [shellFrames, List.map_eq_nil_iff, List.filter_eq_nil_iff]
  intro e he
  simpa using h e he

variable {db : Db} {c : ShellClient}

theorem Live.caught (h : Live f g db c) : Caught f g db c := { h with
  agrees := fun _ _ => by
    have hnone : shellFrames (db.selectEvents c.cursor) = [] := by
      refine shellFrames_eq_nil fun e he htype => ?_
      rw [selectEvents_eq, List.mem_filter, decide_eq_true_eq] at he
      exact absurd (h.seen e he.1 htype) (Nat.not_le.mpr he.2)
    rw [ShellClient.caughtUp, hnone]
    exact h.agrees }

variable {options : AppendOptions} {ts : Int} {db' : Db} {raw : EventDraft}

theorem writeDraft_events (hordered : db.Ordered) (h : Db.writeDraft options ts db raw = .ok (db', event)) :
    db'.minSequence = db.minSequence ∧
      (event.payload.type ≠ .threadDeleted ∧ db'.events = db.events ++ [event.toJson] ∨
        ∃ threadId, event.payload.type = .threadDeleted ∧ event.threadId = some threadId ∧
          db'.events = (db.events.filter fun e => e.threadId ≠ some threadId) ++ [event.toJson]) := by
  obtain ⟨-, happProj, hsequence, -⟩ := Db.writeDraft_projection h
  obtain ⟨-, happ⟩ := Db.writeDraft_eq_ok.mp h
  obtain ⟨p, -, happ⟩ := Except.bind_eq_ok.mp happ
  split at happ
  · rename_i at_ hpay
    cases happ
    obtain ⟨threadId, hid⟩ : ∃ threadId, event.threadId = some threadId := by
      unfold Projection.applyEvent at happProj
      simp only [hpay] at happProj
      obtain ⟨threadId, hreq, -⟩ := Except.bind_eq_ok.mp happProj
      exact ⟨threadId, (requireThreadId_eq_ok.mp hreq).1⟩
    refine ⟨rfl, .inr ⟨threadId, by rw [hpay]; rfl, hid, ?_⟩⟩
    change (db.events ++ [event.toJson]).filter _ = _
    rw [List.filter_append]
    congr 1
    · refine List.filter_congr fun e he => ?_
      have hlt : e.sequence < event.sequence := by
        have := hordered.le_seq e he
        omega
      simp [hlt, hid]
    · exact List.filter_eq_self.mpr (by simp [StoredEvent.toJson])
  · rename_i hne
    cases happ
    refine ⟨rfl, .inl ⟨fun htype => ?_, rfl⟩⟩
    cases hpay : event.payload with
    | threadDeleted at_ => exact hne at_ hpay
    | _ => simp [hpay, Payload.type] at htype

variable {s : ShellState} {p : Projection}

private theorem ListsAgree.frame {p' : Projection} (hs : ListsAgree f g s p) (hseen : SeenAlike f g p event)
    (hfresh : s.sequence < event.sequence) (h : p.applyEvent event = .ok p') :
    ListsAgree f g ((shellFrames [event]).foldl applyShellEvent s) p' := by
  rw [OffThread.foldl_shellFrames_cons hfresh]
  by_cases htype : event.payload.type ∈ SHELL_EVENT_TYPES
  · have hcheck := check_frame (fun hrun => by rw [hrun] at htype; exact absurd htype (by decide)) h
    rw [if_pos ⟨htype, hcheck⟩]
    exact hs.shellEvent hseen htype h
  · obtain ⟨runs, turnItems, queuedMessages, runCheckpoints, rfl⟩ :=
      Projection.applyEvent_shape_of_not_shell htype h
    rw [if_neg fun hshell => htype hshell.1]
    exact hs.of_lookups (fun _ => rfl) (fun _ => rfl) rfl rfl

variable {n : Nat}

private theorem applyShellEvent_sequence_le {e : ThreadEvent} (hs : s.sequence ≤ n) (he : e.sequence ≤ n) :
    (applyShellEvent s e).sequence ≤ n := by
  unfold applyShellEvent
  split
  · exact hs
  · exact hs
  · split_ifs
    · exact hs
    · exact shellEvent_sequence_le hs he

theorem foldl_sequence_le (hs : s.sequence ≤ n) (hl : ∀ e ∈ l, e.sequence ≤ n) :
    ((shellFrames l).foldl applyShellEvent s).sequence ≤ n := by
  refine List.foldlRecOn (motive := fun s : ShellState => s.sequence ≤ n) _ _ hs ?_
  intro s hs e he
  obtain ⟨event, hevent, rfl⟩ := List.mem_map.mp he
  exact applyShellEvent_sequence_le hs (hl event (List.mem_of_mem_filter hevent))

theorem Caught.writeDraft (h : Caught f g db c) (hordered : db.Ordered) (hstored : ∀ e ∈ db.events, Addressed e)
    (hseen : SeenAlike f g db.projection event) (hwrite : Db.writeDraft options ts db raw = .ok (db', event)) :
    Caught f g db' c := by
  obtain ⟨-, happ, hsequence, hseq⟩ := Db.writeDraft_projection hwrite
  obtain ⟨hmin, hevents⟩ := writeDraft_events hordered hwrite
  have hcursor := h.cursor_le
  refine ⟨h.sequence_le, by omega, fun hpos hle => ?_⟩
  rw [hmin] at hle
  have hold := h.agrees hpos hle
  have hpast : c.cursor < event.sequence := by omega
  -- The client that catches up before the event, and then takes it.
  have hnext : ListsAgree f g ((shellFrames (db.selectEvents c.cursor ++ [event])).foldl
      applyShellEvent c.state) db'.projection := by
    rw [shellFrames_append, List.foldl_append]
    refine hold.frame hseen ?_ happ
    refine (foldl_sequence_le (n := db.seq) (h.sequence_le.trans hcursor) fun e he => ?_).trans_lt
      (by omega)
    exact hordered.le_seq e (List.mem_of_mem_filter (selectEvents_eq db c.cursor ▸ he))
  have hself : [event.toJson].filter (fun e => decide (c.cursor < e.sequence)) = [event.toJson] :=
    List.filter_eq_self.mpr (by simpa [StoredEvent.toJson] using hpast)
  rcases hevents with ⟨-, hevents⟩ | ⟨threadId, htype, hid, hevents⟩
  · have hselect : shellFrames (db'.selectEvents c.cursor) = shellFrames (db.selectEvents c.cursor ++ [event]) := by
      rw [selectEvents_eq, hevents, List.filter_append, hself, selectEvents_eq,
        shellFrames_append, shellFrames_append, shellFrames_toJson]
    rw [ShellClient.caughtUp, hselect]
    exact hnext
  · have hselect : shellFrames (db'.selectEvents c.cursor) = shellFrames
        ((db.selectEvents c.cursor).filter fun e => e.threadId ≠ some threadId) ++
          shellFrames [event] := by
      rw [selectEvents_eq, hevents, List.filter_append, hself, selectEvents_eq, List.filter_filter,
        List.filter_filter, shellFrames_append, shellFrames_toJson]
      simp only [Bool.and_comm]
    have hafter : OffThread.After c.cursor (db.selectEvents c.cursor) := by
      rw [selectEvents_eq]
      exact ⟨fun e he => by simpa using (List.mem_filter.mp he).2, hordered.sorted.sublist List.filter_sublist⟩
    have hoff := (@OffThread.refl threadId c.state).foldl_filter h.sequence_le h.sequence_le hafter fun e he =>
        hstored e (List.mem_of_mem_filter (selectEvents_eq db c.cursor ▸ he))
    have hfresh {l : List StoredEvent} (hl : ∀ e ∈ l, e ∈ db.events) :
        ((shellFrames l).foldl applyShellEvent c.state).sequence < event.sequence :=
      (foldl_sequence_le (n := db.seq) (h.sequence_le.trans hcursor) fun e he =>
        hordered.le_seq e (hl e he)).trans_lt (by omega)
    have hselected : ∀ e ∈ db.selectEvents c.cursor, e ∈ db.events := fun e he =>
      List.mem_of_mem_filter (selectEvents_eq db c.cursor ▸ he)
    have hshell : event.payload.type ∈ SHELL_EVENT_TYPES ∧ check event.frame = .ok := by
      have htype' : event.payload.type ∈ SHELL_EVENT_TYPES := by rw [htype]; decide
      exact ⟨htype', check_frame (by rw [htype]; decide) happ⟩
    rw [shellFrames_append, List.foldl_append, OffThread.foldl_shellFrames_cons
      (hfresh hselected), if_pos hshell] at hnext
    rw [ShellClient.caughtUp, hselect, List.foldl_append, OffThread.foldl_shellFrames_cons
      (hfresh fun e he => hselected e (List.mem_of_mem_filter he)), if_pos hshell]
    obtain ⟨hprojects, hthreads⟩ := hoff.shellEvent_deleted htype hid
    exact hnext.of_lookups (fun id => (hprojects id).symm) (fun id => (hthreads id).symm) rfl rfl

/-! ### Frames -/

theorem liveFrames_eq (l : List StoredEvent) : Sidebar.liveFrames l = (shellFrames l).map .event := by
  simp only [Sidebar.liveFrames, shellFrames, StreamKind.accepts, StoredEvent.type_frame,
    List.map_map, Function.comp_def]

theorem receive_sequence_le (hc : c.state.sequence ≤ c.cursor) (e : ThreadEvent) :
    (c.receive (.event e)).state.sequence ≤ (c.receive (.event e)).cursor :=
  applyShellEvent_sequence_le (hc.trans (Nat.le_max_left ..)) (Nat.le_max_right ..)

theorem Live.writeDraft (h : Live f g db c) (hordered : db.Ordered) (hseen : SeenAlike f g db.projection event)
    (hwrite : Db.writeDraft options ts db raw = .ok (db', event)) :
    Live f g db' ((Sidebar.liveFrames [event]).foldl ShellClient.receive c) := by
  obtain ⟨-, happ, hsequence, hseq⟩ := Db.writeDraft_projection hwrite
  obtain ⟨-, hevents⟩ := writeDraft_events hordered hwrite
  have hsub : ∀ e ∈ db'.events, e ∈ db.events ∨ e = event.toJson := by
    intro e he
    rcases hevents with ⟨-, hevents⟩ | ⟨threadId, -, -, hevents⟩
    · simpa [hevents] using he
    · rw [hevents, List.mem_append] at he
      exact he.imp List.mem_of_mem_filter List.mem_singleton.mp
  have hcursor := h.cursor_le
  have hagrees := h.agrees.frame hseen (by have := h.sequence_le; omega) happ
  rw [liveFrames_eq]
  by_cases htype : event.payload.type ∈ SHELL_EVENT_TYPES
  · have hframes : shellFrames [event] = [event.frame] := by simp [shellFrames, htype]
    rw [hframes] at hagrees ⊢
    have hlast : max c.cursor event.sequence = event.sequence := by omega
    refine ⟨receive_sequence_le h.sequence_le _, ?_, hagrees, fun e he htype => ?_⟩
    · change max c.cursor event.sequence ≤ db'.seq
      omega
    · change e.sequence ≤ max c.cursor event.sequence
      rcases hsub e he with he | rfl
      · exact (h.seen e he htype).trans (Nat.le_max_left ..)
      · exact Nat.le_max_right ..
  · have hframes : shellFrames [event] = [] := by simp [shellFrames, htype]
    rw [hframes] at hagrees ⊢
    refine ⟨h.sequence_le, by change c.cursor ≤ db'.seq; omega, hagrees, fun e he htype' => ?_⟩
    rcases hsub e he with he | rfl
    · exact h.seen e he htype'
    · rw [StoredEvent.toJson, Payload.type_toJson] at htype'
      exact absurd htype' htype

theorem caught_of_replay (hordered : db.Ordered) (l : List StoredEvent) (h : Caught f g db c)
    (hpos : 0 < c.cursor) (hmin : db.minSequence ≤ c.cursor)
    (hl : ((db.selectEvents c.cursor).filter fun e => SHELL_EVENT_TYPES.contains e.payload.type) = l) :
    (∀ taken, taken <+: l.map (fun e => StreamFrame.event e.frame) →
      Caught f g db (taken.foldl ShellClient.receive c)) ∧
    Live f g db ((l.map fun e => StreamFrame.event e.frame).foldl ShellClient.receive c) := by
  induction l generalizing c with
  | nil =>
    refine ⟨fun taken htaken => ?_, h.sequence_le, h.cursor_le, ?_, fun e he htype => ?_⟩
    · rw [List.map_nil, List.prefix_nil] at htaken
      rw [htaken]
      exact h
    · have hagrees := h.agrees hpos hmin
      rw [ShellClient.caughtUp, shellFrames, hl] at hagrees
      exact hagrees
    · by_contra hlt
      have hmem : e ∈ (db.selectEvents c.cursor).filter fun e => SHELL_EVENT_TYPES.contains e.payload.type := by
        rw [selectEvents_eq, List.mem_filter, List.mem_filter]
        exact ⟨⟨he, by simpa using hlt⟩, by simpa using htype⟩
      rw [hl] at hmem
      cases hmem
  | cons event l ih =>
    have hmem : event ∈ (db.selectEvents c.cursor).filter fun e => SHELL_EVENT_TYPES.contains e.payload.type := by
      rw [hl]
      exact List.mem_cons_self
    have hagrees := h.agrees hpos hmin
    rw [ShellClient.caughtUp, shellFrames, hl] at hagrees
    rw [selectEvents_eq, List.filter_filter] at hl
    rw [selectEvents_eq, List.mem_filter, List.mem_filter, decide_eq_true_eq] at hmem
    obtain ⟨⟨hstored, hpast⟩, htype⟩ := hmem
    have hcursor : (c.receive (.event event.frame)).cursor = event.sequence := by
      change max c.cursor event.sequence = event.sequence
      omega
    have hsorted : (event :: l).Pairwise (·.sequence < ·.sequence) :=
      hl ▸ hordered.sorted.sublist List.filter_sublist
    rw [List.pairwise_cons] at hsorted
    have hrest : ((db.selectEvents (c.receive (.event event.frame)).cursor).filter
        fun e => SHELL_EVENT_TYPES.contains e.payload.type) = l := by
      have hfilter : (event :: l).filter (fun e => decide (event.sequence < e.sequence)) = l := by
        rw [List.filter_cons_of_neg (by simp)]
        exact List.filter_eq_self.mpr fun e he => by simpa using hsorted.1 e he
      rw [← hl, List.filter_filter] at hfilter
      rw [selectEvents_eq, List.filter_filter, hcursor]
      refine Eq.trans ?_ hfilter
      refine List.filter_congr fun e _ => ?_
      by_cases hlt : event.sequence < e.sequence
      · simp [hlt, hpast.trans hlt]
      · simp [hlt]
    have hnext : Caught f g db (c.receive (.event event.frame)) := by
      refine ⟨receive_sequence_le h.sequence_le _, ?_, fun _ _ => ?_⟩
      · rw [hcursor]
        exact hordered.le_seq event hstored
      · rw [ShellClient.caughtUp, shellFrames, hrest]
        exact hagrees
    obtain ⟨htaken, hlive⟩ := ih hnext (by omega) (by omega) hrest
    refine ⟨fun taken hprefix => ?_, hlive⟩
    cases taken with
    | nil => exact h
    | cons frame taken =>
      rw [List.map_cons, List.cons_prefix_cons] at hprefix
      obtain ⟨rfl, hprefix⟩ := hprefix
      exact htaken taken hprefix

/-- A client that takes these frames could reconnect at any of them, and is live after the last. -/
structure Delivers (f : Thread → α) (g : Project → β) (db : Db) (c : ShellClient)
    (frames : List StreamFrame) : Prop where
  caught : ∀ taken, taken <+: frames → Caught f g db (taken.foldl ShellClient.receive c)
  live : Live f g db (frames.foldl ShellClient.receive c)

variable {frames : List StreamFrame}

private theorem Delivers.concat {frame : StreamFrame}
    (h : ∀ taken, taken <+: frames → Caught f g db (taken.foldl ShellClient.receive c))
    (hlive : Live f g db ((frames.foldl ShellClient.receive c).receive frame)) :
    Delivers f g db c (frames ++ [frame]) := by
  have hall : (frames ++ [frame]).foldl ShellClient.receive c =
      (frames.foldl ShellClient.receive c).receive frame := by
    rw [List.foldl_append, List.foldl_cons, List.foldl_nil]
  refine ⟨fun taken htaken => ?_, hall ▸ hlive⟩
  rcases List.prefix_concat_iff.mp htaken with rfl | htaken
  · rw [hall]
    exact hlive.caught
  · exact h taken htaken

private theorem Delivers.take {db : Db} {c : ShellClient} {frame : StreamFrame}
    {frames : List StreamFrame} (h : Delivers f g db c (frame :: frames)) :
    Delivers f g db (c.receive frame) frames :=
  ⟨fun taken htaken => h.caught (frame :: taken) (by simpa using htaken), h.live⟩

private theorem Delivers.writeDraft (h : Delivers f g db c frames) (hordered : db.Ordered)
    (hstored : ∀ e ∈ db.events, Addressed e) (hseen : SeenAlike f g db.projection event)
    (hwrite : Db.writeDraft options ts db raw = .ok (db', event)) :
    Delivers f g db' c (frames ++ Sidebar.liveFrames [event]) := by
  have hcaught : ∀ taken, taken <+: frames →
      Caught f g db' (taken.foldl ShellClient.receive c) := fun taken htaken =>
    (h.caught taken htaken).writeDraft hordered hstored hseen hwrite
  have hlive := h.live.writeDraft hordered hseen hwrite
  rw [liveFrames_eq] at hlive ⊢
  by_cases htype : event.payload.type ∈ SHELL_EVENT_TYPES
  · have hframes : shellFrames [event] = [event.frame] := by simp [shellFrames, htype]
    rw [hframes] at hlive ⊢
    exact Delivers.concat hcaught hlive
  · have hframes : shellFrames [event] = [] := by simp [shellFrames, htype]
    rw [hframes] at hlive ⊢
    rw [List.map_nil, List.append_nil]
    exact ⟨hcaught, hlive⟩

private theorem Live.synchronized (h : Live f g db c) :
    Live f g db (c.receive (.synchronized db.lastSequence)) where
  sequence_le := h.sequence_le.trans (Nat.le_max_left ..)
  cursor_le := Nat.max_le.mpr ⟨h.cursor_le, le_rfl⟩
  agrees := h.agrees
  seen e he htype := (h.seen e he htype).trans (Nat.le_max_left ..)

private theorem delivers_connect (h : Caught f g db c) (hordered : db.Ordered) :
    Delivers f g db c ((shellRoute db c.cursor).owes []) := by
  have hstart : ∀ taken, taken <+: [] → Caught f g db (taken.foldl ShellClient.receive c) := by
    intro taken htaken
    rw [List.prefix_nil.mp htaken]
    exact h
  unfold shellRoute StreamSpec.owes
  cases hreplay : db.replayAfter c.cursor { types := some SHELL_EVENT_TYPES } with
  | none =>
    have hsnapshot : Live f g db (c.receive (.shellSnapshot db.snapshotShell)) :=
      ⟨le_rfl, le_rfl, ListsAgree.shellFromSnapshot db, fun e he _ => hordered.le_seq e he⟩
    have hone : Delivers f g db c [.shellSnapshot db.snapshotShell] := Delivers.concat hstart hsnapshot
    exact Delivers.concat hone.caught hsnapshot.synchronized
  | some catchUp =>
    have hvalid : 0 < c.cursor ∧ c.cursor ≤ db.lastSequence ∧ db.minSequence ≤ c.cursor := by
      unfold Db.replayAfter at hreplay
      split at hreplay
      · assumption
      · cases hreplay
    let spec : StreamSpec := { kind := .shell, catchUp, synced := db.lastSequence }
    have hcatchUp : catchUp = (spec.missed db c.cursor).map fun e => .event e.frame :=
      replayAfter_eq hordered rfl (fun e => by simp [Db.EventsAfterOptions.admits, StreamKind.accepts, spec]) hreplay
    have hmissed : ((db.selectEvents c.cursor).filter
        fun e => SHELL_EVENT_TYPES.contains e.payload.type) = spec.missed db c.cursor := by
      rw [selectEvents_eq, List.filter_filter]
      refine List.filter_congr fun e he => ?_
      have hle : e.sequence ≤ spec.synced := hordered.le_seq e he
      simp [hle, StreamKind.accepts, spec, Bool.and_comm]
    obtain ⟨htaken, hlive⟩ := caught_of_replay hordered (spec.missed db c.cursor) h hvalid.1 hvalid.2.2 hmissed
    rw [← hcatchUp] at htaken hlive
    exact Delivers.concat htaken hlive.synchronized

/-! ### Prunes -/

variable {at_ : Int}

theorem prune_lists (h : p.expiredThreads at_ = []) :
    (p.prune at_).threads = p.threads ∧ (p.prune at_).projects = p.projects := by
  rw [Projection.prune, h, List.foldl_nil, Projection.foldl_pruneItems_eq]
  exact ⟨rfl, rfl⟩

private theorem Caught.prune {l : Ledger} (h : Caught f g l.db c) (hl : l.Floored) (hbelow : l.FromBelow (.prune at_))
    (hkept : l.db.projection.expiredThreads at_ = []) : Caught f g (l.db.prune at_).1 c := by
  obtain ⟨hge, -, -, hgone⟩ := hl.prune_floor hbelow
  refine ⟨h.sequence_le, h.cursor_le, fun hpos hle => ?_⟩
  have hselect : (l.db.prune at_).1.selectEvents c.cursor = l.db.selectEvents c.cursor := by
    rw [selectEvents_eq, selectEvents_eq]
    change (l.db.events.filter _).filter _ = _
    rw [List.filter_filter]
    refine List.filter_congr fun e he => ?_
    by_cases hprune : l.db.prunable at_ e = true
    · have hbefore : ¬ c.cursor < e.sequence := by
        have := hgone e he hprune
        omega
      simp [hbefore]
    · simp [hprune]
  obtain ⟨hthreads, hprojects⟩ := prune_lists hkept
  rw [ShellClient.caughtUp, hselect]
  exact (h.agrees hpos (hge.trans hle)).of_lookups (fun _ => rfl) (fun _ => rfl) hprojects hthreads

private theorem Live.prune {l : Ledger} (h : Live f g l.db c) (hkept : l.db.projection.expiredThreads at_ = []) :
    Live f g (l.db.prune at_).1 c := by
  obtain ⟨hthreads, hprojects⟩ := prune_lists hkept
  exact ⟨h.sequence_le, h.cursor_le, h.agrees.of_lookups (fun _ => rfl) (fun _ => rfl) hprojects hthreads,
    fun e he htype => h.seen e (List.mem_of_mem_filter he) htype⟩

end

/-! ### Runs -/

namespace Sidebar

/-- The client is not connected, and no cursor of its own is replayed from after the prune: it has
none, or every event that stays is past it. -/
def OutOfReach (w : Sidebar) (at_ : Int) : Prop :=
  w.pipe = none ∧ (w.client.cursor = 0 ∨
    (0 < w.ledger.db.minSequence ∨ ∃ e ∈ w.ledger.db.events, w.ledger.db.prunable at_ e = true) ∧
      ∀ e ∈ w.ledger.db.events, w.ledger.db.prunable at_ e = false → w.client.cursor < e.sequence)

instance (w : Sidebar) (at_ : Int) : Decidable (w.OutOfReach at_) := inferInstanceAs (Decidable (_ ∧ _))

/-- The steps after which a replay still says all that happened: events name the threads they are
about, a prune deletes events from below, and it removes no thread from a client that could resume by
replay. -/
def Heard (w : Sidebar) : SidebarAction → Prop
  | .op (.append batch) => Db.BatchMeets (fun _ event => Addressed event) w.ledger.db batch
  | .op (.prune at_) => w.ledger.FromBelow (.prune at_) ∧
      (w.ledger.db.projection.expiredThreads at_ = [] ∨ w.OutOfReach at_)
  | .connect | .take | .lose => True

instance (w : Sidebar) (a : SidebarAction) : Decidable (w.Heard a) :=
  match a with
  | .op (.append batch) =>
    inferInstanceAs (Decidable (Db.BatchMeets (fun _ event => Addressed event) w.ledger.db batch))
  | .op (.prune at_) => inferInstanceAs (Decidable (w.ledger.FromBelow (.prune at_) ∧
      (w.ledger.db.projection.expiredThreads at_ = [] ∨ w.OutOfReach at_)))
  | .connect | .take | .lose => .isTrue trivial

/-- The steps whose events say on the wire what the store does with them. -/
def Mirrored (w : Sidebar) : SidebarAction → Prop
  | .op (.append batch) => Db.BatchMeets ShellMirrors w.ledger.db batch
  | .op (.prune _) | .connect | .take | .lose => True

instance (w : Sidebar) (a : SidebarAction) : Decidable (w.Mirrored a) :=
  match a with
  | .op (.append batch) => inferInstanceAs (Decidable (Db.BatchMeets ShellMirrors w.ledger.db batch))
  | .op (.prune _) | .connect | .take | .lose => .isTrue trivial

section

variable {α β : Type} {f : Thread → α} {g : Project → β}

/-- What every run keeps: the client would catch up from where it is and from every frame on its way
to it. -/
structure Follows (f : Thread → α) (g : Project → β) (w : Sidebar) : Prop where
  floored : w.ledger.Floored
  addressed : ∀ e ∈ w.ledger.db.events, Addressed e
  caught : Caught f g w.ledger.db w.client
  delivers : ∀ frames, w.pipe = some frames → Delivers f g w.ledger.db w.client frames

theorem Follows.new : new.Follows f g where
  floored := .new
  addressed e he := by cases he
  caught := ⟨le_rfl, le_rfl, fun hpos => absurd hpos (Nat.lt_irrefl 0)⟩
  delivers frames h := by cases h

variable {w : Sidebar}

theorem Follows.resumed (h : w.Follows f g) : ListsAgree f g w.resumed.state w.ledger.db.projection :=
  (delivers_connect h.caught h.floored.ordered).live.agrees

variable {db : Db}

private theorem Follows.writeDraft {options : AppendOptions} {ts : Int} {raw : EventDraft} {event : StoredEvent}
    (h : w.Follows f g) (haddressed : Addressed event) (hseen : SeenAlike f g w.ledger.db.projection event)
    (hwrite : Db.writeDraft options ts w.ledger.db raw = .ok (db, event)) :
    Follows f g
      { w with
        ledger := ⟨db, w.ledger.written ++ [event]⟩
        pipe := w.pipe.map (· ++ liveFrames [event]) } := by
  have hordered := h.floored.ordered
  refine ⟨h.floored.writeDraft hwrite, fun e he => ?_,
    h.caught.writeDraft hordered h.addressed hseen hwrite, fun frames hframes => ?_⟩
  · rcases (writeDraft_events hordered hwrite).2 with ⟨-, hevents⟩ | ⟨threadId, -, -, hevents⟩
    · rw [hevents, List.mem_append] at he
      rcases he with he | he
      · exact h.addressed e he
      · rw [List.mem_singleton.mp he]
        exact addressed_toJson haddressed
    · rw [hevents, List.mem_append] at he
      rcases he with he | he
      · exact h.addressed e (List.mem_of_mem_filter he)
      · rw [List.mem_singleton.mp he]
        exact addressed_toJson haddressed
  · obtain ⟨before, hbefore, rfl⟩ := Option.map_eq_some_iff.mp hframes
    exact (h.delivers before hbefore).writeDraft hordered h.addressed hseen hwrite

private theorem Follows.sameEvents (h : w.Follows f g) (hsame : Db.SameEvents w.ledger.db db) :
    Follows f g { w with ledger := ⟨db, w.ledger.written⟩ } := by
  have hcaught {c : ShellClient} (hc : Caught f g w.ledger.db c) : Caught f g db c := by
    refine ⟨hc.sequence_le, hsame.seq ▸ hc.cursor_le, fun hpos hle => ?_⟩
    rw [hsame.projection, ShellClient.caughtUp, selectEvents_eq, hsame.events, ← selectEvents_eq]
    exact hc.agrees hpos (hsame.minSequence ▸ hle)
  refine ⟨h.floored.sameEvents hsame, ?_, hcaught h.caught, fun frames hframes => ?_⟩
  · change ∀ e ∈ db.events, Addressed e
    rw [hsame.events]
    exact h.addressed
  · obtain ⟨htaken, hlive⟩ := h.delivers frames hframes
    refine ⟨fun taken hprefix => hcaught (htaken taken hprefix), hlive.sequence_le,
      hsame.seq ▸ hlive.cursor_le, ?_, ?_⟩
    · change ListsAgree f g _ db.projection
      rw [hsame.projection]
      exact hlive.agrees
    · change ∀ e ∈ db.events, _
      rw [hsame.events]
      exact hlive.seen

theorem map_append_liveFrames_nil (pipe : Option (List StreamFrame)) : pipe.map (· ++ liveFrames []) = pipe := by
  cases pipe <;> simp [liveFrames]

private theorem Follows.prune {at_ : Int} (h : w.Follows f g) (hbelow : w.ledger.FromBelow (.prune at_))
    (hremoves : w.ledger.db.projection.expiredThreads at_ = [] ∨ w.OutOfReach at_) :
    Follows f g { w with ledger := { w.ledger with db := (w.ledger.db.prune at_).1 } } := by
  have haddressed : ∀ e ∈ (w.ledger.db.prune at_).1.events, Addressed e := fun e he =>
    h.addressed e (List.mem_of_mem_filter he)
  refine ⟨h.floored.prune hbelow, haddressed, ?_, fun frames hframes => ?_⟩
  · rcases hremoves with hkept | ⟨-, hcursor⟩
    · exact h.caught.prune h.floored hbelow hkept
    · refine ⟨h.caught.sequence_le, h.caught.cursor_le, fun hpos hle => ?_⟩
      rcases hcursor with hzero | ⟨hmoved, hpast⟩
      · exact absurd hzero hpos.ne'
      · have hlt := Ledger.lt_minSequence_prune h.caught.cursor_le hmoved hpast
        exact absurd hle (Nat.not_le.mpr hlt)
  · rcases hremoves with hkept | ⟨hclosed, -⟩
    · obtain ⟨htaken, hlive⟩ := h.delivers frames hframes
      exact ⟨fun taken hprefix => (htaken taken hprefix).prune h.floored hbelow hkept, hlive.prune hkept⟩
    · cases hclosed.symm.trans hframes

private theorem Follows.append {batch : Batch} {written : List StoredEvent} (h : w.Follows f g)
    (haddressed : Db.BatchMeets (fun _ event => Addressed event) w.ledger.db batch)
    (hseen : Db.BatchMeets (fun db event => SeenAlike f g db.projection event) w.ledger.db batch)
    (happ : w.ledger.db.append batch = .ok (db, written)) :
    Follows f g
      { w with
        ledger := ⟨db, w.ledger.written ++ written⟩
        pipe := w.pipe.map (· ++ liveFrames written) } := by
  obtain ⟨m, hm, hsame⟩ := Db.append_eq_ok happ
  suffices hall : Follows f g
      { w with
        ledger := ⟨m, w.ledger.written ++ written⟩
        pipe := w.pipe.map (· ++ liveFrames written) } from hall.sameEvents hsame
  refine Fold.traceM_invariant (w := []) (P := fun (db : Db) (sofar : List StoredEvent) => Follows f g
      { w with
        ledger := ⟨db, w.ledger.written ++ sofar⟩
        pipe := w.pipe.map (· ++ liveFrames sofar) }) ?_ ?_ (haddressed.and hseen) hm
  · intro db sofar raw db' event hdb hC hwrite
    obtain ⟨rfl, -⟩ := Db.writeDraft_eq_ok.mp hwrite
    have hnext := hdb.writeDraft hC.1 hC.2 hwrite
    have hpipe : (w.pipe.map (· ++ liveFrames sofar)).map (· ++ liveFrames [db.stamp batch.options batch.ts raw]) =
        w.pipe.map (· ++ liveFrames (sofar ++ [db.stamp batch.options batch.ts raw])) := by
      rw [Option.map_map]
      refine congrArg (Option.map · w.pipe) (funext fun frames => ?_)
      rw [Function.comp_apply, List.append_assoc, liveFrames_eq, liveFrames_eq, liveFrames_eq,
        shellFrames_append, List.map_append]
    rwa [hpipe, List.append_assoc] at hnext
  · rw [map_append_liveFrames_nil, List.append_nil]
    exact h

theorem Follows.step {w' : Sidebar} {a : SidebarAction} (h : w.Follows f g) (hheard : w.Heard a)
    (hseen : ∀ batch, a = .op (.append batch) → Db.BatchMeets
      (fun db event => SeenAlike f g db.projection event) w.ledger.db batch)
    (hstep : w.step a = some w') : w'.Follows f g := by
  cases a with
  | op op =>
    obtain ⟨ledger, hledger, rfl⟩ := Option.map_eq_some_iff.mp hstep
    cases op with
    | append batch =>
      obtain ⟨db, written, happ, rfl⟩ := Ledger.step_append_eq_some.mp hledger
      have hdrop : (w.ledger.written ++ written).drop w.ledger.written.length = written := by simp
      simpa only [hdrop] using h.append hheard (hseen batch rfl) happ
    | prune at_ =>
      cases hledger
      simp only [List.drop_length, map_append_liveFrames_nil]
      exact h.prune hheard.1 hheard.2
  | connect =>
    cases hstep
    refine ⟨h.floored, h.addressed, h.caught, fun frames hframes => ?_⟩
    cases hframes
    exact delivers_connect h.caught h.floored.ordered
  | take =>
    unfold Sidebar.step at hstep
    dsimp only at hstep
    split at hstep
    · rename_i frame frames hpipe
      cases hstep
      have hdelivers := h.delivers (frame :: frames) hpipe
      refine ⟨h.floored, h.addressed, ?_, fun rest hrest => ?_⟩
      · exact hdelivers.take.caught [] (List.nil_prefix)
      · cases hrest
        exact hdelivers.take
    · cases hstep
  | lose =>
    cases hstep
    exact ⟨h.floored, h.addressed, h.caught, fun frames hframes => by cases hframes⟩

end

variable {w : Sidebar}

theorem follows_of_run (h : Runs.Run step Heard new w) : w.Follows (fun _ => ()) (fun _ => ()) :=
  h.invariant (fun _ _ _ hw hheard hstep => hw.step hheard
    (fun _ _ => Fold.along_of_forall fun db _ _ => seenAlike_presence db.projection _) hstep)
    Follows.new

theorem follows_records_of_run (h : Runs.Run step (fun w a => w.Heard a ∧ w.Mirrored a) new w) :
    w.Follows withoutFalseFlags id := by
  refine h.invariant (fun w a _ hw hsteps hstep => hw.step hsteps.1 ?_ hstep) Follows.new
  rintro batch rfl
  exact Fold.Along.imp (fun db _ hmirror => seenAlike_records hmirror.clearsNothing hmirror.switch) hsteps.2

theorem has_eq_of_map_unit {κ ρ σ : Type} [DecidableEq κ] {k : ρ → κ} {k' : σ → κ}
    {t : Table k} {t' : Table k'} {id : κ}
    (h : (t.find? id).map (fun _ => ()) = (t'.find? id).map fun _ => ()) :
    t.has id = t'.has id := by
  unfold Table.has
  cases hfind : t.find? id <;> cases hfind' : t'.find? id <;> simp [hfind, hfind'] at h ⊢

/-- In every run of such steps, whatever the client has taken and wherever it lost its connection,
the catch-up leaves it with the threads and the projects of a fresh snapshot, and with their records
when the events say on the wire what the store does with them. -/
theorem resume_agrees {w : Sidebar} (h : Runs.Run step Heard new w) :
    w.resumed.state.SameLists (shellFromSnapshot w.ledger.db.snapshotShell) ∧
      (Runs.Run step (fun w a => w.Heard a ∧ w.Mirrored a) new w →
        w.resumed.state.SameListed (shellFromSnapshot w.ledger.db.snapshotShell)) := by
  refine ⟨?_, fun hrecords => ?_⟩
  · have hmine := (follows_of_run h).resumed
    have hfresh := ListsAgree.shellFromSnapshot (f := fun _ => ()) (g := fun _ => ()) w.ledger.db
    exact ⟨fun id => has_eq_of_map_unit ((hmine.projects id).trans (hfresh.projects id).symm),
      fun id => has_eq_of_map_unit ((hmine.threads id).trans (hfresh.threads id).symm)⟩
  · have hmine := (follows_records_of_run hrecords).resumed
    have hfresh := ListsAgree.shellFromSnapshot (f := withoutFalseFlags) (g := id) w.ledger.db
    refine ⟨fun id => ?_, fun id => (hmine.threads id).trans (hfresh.threads id).symm⟩
    simpa only [Option.map_id, id_eq] using (hmine.projects id).trans (hfresh.projects id).symm

/-- A client that has seen a thread archived loses its connection; the thread is deleted and another
created before it is back. -/
def deletedAway : List SidebarAction :=
  [.op (.append { drafts := [createProject (testProject "w1"), createThread (testThread "t1")], ts := 0 }),
    .connect, .take, .take,
    .op (.append { drafts := [⟨some "t1", .threadArchived .user 0⟩], ts := 0 }), .take, .lose,
    .op (.append { drafts := [⟨some "t1", .threadDeleted 5⟩, createThread (testThread "t2")], ts := 5 })]

/-- A deletion is in the log, and reaches the client by replay. -/
theorem resume_agrees_deletedAway : ∃ w,
    Runs.exec step (fun w a => w.Heard a ∧ w.Mirrored a) new deletedAway = some w ∧
      w.resumed.state.SameLists (shellFromSnapshot w.ledger.db.snapshotShell) ∧
      w.resumed.state.SameListed (shellFromSnapshot w.ledger.db.snapshotShell) :=
  have hexec : (Runs.exec step (fun w a => w.Heard a ∧ w.Mirrored a) new deletedAway).isSome = true := by decide
  have hrun := Runs.run_of_exec (Option.some_get hexec).symm
  have hagrees := resume_agrees (hrun.imp fun _ _ h => h.1)
  ⟨_, (Option.some_get hexec).symm, hagrees.1, hagrees.2 hrun⟩

/-- A client that has seen a thread archived loses its connection, and a prune removes the thread. -/
def prunedAway : List SidebarAction :=
  [.op (.append { drafts := [createProject (testProject "w1"), createThread (testThread "t1")], ts := 0 }),
    .op (.append { drafts := [⟨some "t1", .threadArchived .user 0⟩], ts := 0 }),
    .connect, .take, .take, .lose, .op (.prune (RETAIN_ARCHIVED_MS + 1))]

/-- A prune says nothing in the log: the client resumes by replay, and keeps the thread. -/
theorem resume_keeps_pruned : ¬ ∀ w, Runs.Run step (fun _ _ => True) new w →
      w.resumed.state.SameLists (shellFromSnapshot w.ledger.db.snapshotShell) := by
  intro hclaim
  let stays (w : Sidebar) : Bool := w.resumed.state.threads.has "t1" ∧
    (shellFromSnapshot w.ledger.db.snapshotShell).threads.has "t1" = false
  have hexec : (Runs.exec step (fun _ _ => True) new prunedAway).any stays = true := by decide
  obtain ⟨w, hrun, hstays⟩ := Runs.exists_run_of_exec hexec
  obtain ⟨hkept, hgone⟩ := of_decide_eq_true hstays
  have hsame := (hclaim w hrun).threads "t1"
  rw [hkept, hgone] at hsame
  cases hsame

end Sidebar

end Sightr.Client
