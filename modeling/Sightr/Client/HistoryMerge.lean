import Sightr.Client.Reducer
import Sightr.Store.History

/-!
# A history page that arrives late

`mergeHistoryPage` of `web2/src/stream/apply.ts` adds an older page to the open thread, and what the thread has wins.
The events after the page was taken may be applied before it arrives. An event about a run that the thread does not
have is dropped, and the page then brings the run as it was before the event. Items do not differ: an event carries
the whole item.
-/

namespace Sightr.Client

open Keyed (Table)

/-! ### Merging -/

/-- Prepend an older page; what the state already has wins. -/
def mergeHistoryPage (state : ThreadState) (page : HistoryPage) : ThreadState :=
  let mine := page.runs.filter (·.run.threadId = state.threadId)
  let items := (mine.flatMap (·.items) ++ page.loose).filter (·.threadId = state.threadId)
  { state with
    runs := (mine.map (·.run)).foldl Table.fill state.runs
    items := items.foldl Table.fill state.items
    -- The state keeps the position that a cursor's text stands for.
    historyCursor := page.nextCursor.bind decodeHistoryCursor }

/-- The run of the thread under the id, as the page has it. -/
def pageRun (page : HistoryPage) (threadId id : String) : Option Run :=
  ((page.runs.filter (·.run.threadId = threadId)).map (·.run)).find? (·.id = id)

def pageItem (page : HistoryPage) (threadId id : String) : Option TurnItem :=
  (((page.runs.filter (·.run.threadId = threadId)).flatMap (·.items) ++ page.loose).filter
    (·.threadId = threadId)).find? (·.id = id)

variable {s t : ThreadState} {page : HistoryPage} {event : ThreadEvent} {events : List ThreadEvent}

section

variable (s : ThreadState)

theorem runs_mergeHistoryPage (page : HistoryPage) (id : String) :
    (mergeHistoryPage s page).runs.find? id = (s.runs.find? id).or (pageRun page s.threadId id) :=
  Table.find?_foldl_fill ..

theorem items_mergeHistoryPage (page : HistoryPage) (id : String) :
    (mergeHistoryPage s page).items.find? id = (s.items.find? id).or (pageItem page s.threadId id) :=
  Table.find?_foldl_fill ..

/-! ### What is compared -/

def content (item : TurnItem) : TurnItemOf Unit := item.at ()

/-- The states hold the same runs and the same items, positions apart. -/
structure SameRows (s t : ThreadState) : Prop where
  runs : ∀ id, s.runs.find? id = t.runs.find? id
  items : ∀ id, (s.items.find? id).map content = (t.items.find? id).map content

def applyEvents (events : List ThreadEvent) : ThreadState := events.foldl applyThreadEvent s

/-- The page comes after the events and before them, and makes the same of the thread. -/
def Commutes (page : HistoryPage) (events : List ThreadEvent) : Prop :=
  SameRows (mergeHistoryPage (applyEvents s events) page) (applyEvents (mergeHistoryPage s page) events)

/-- Every item event says where its item stands, as the store's do. -/
def Placed (events : List ThreadEvent) : Prop :=
  ∀ event ∈ events, ∀ item, event.payload = .turnItemUpdated item → item.ordinal.isSome = true

/-! ### What an event does to a row -/

section

variable (event : ThreadEvent)

/-- The event passes the checks, is not stale and is the thread's. -/
def applies : Bool :=
  check event = .ok && decide (s.sequence < event.sequence) &&
    (event.threadId.isNone || event.threadId = some s.threadId)

theorem applyThreadEvent_eq : applyThreadEvent s event = if applies s event then threadEvent s event else s := by
  unfold applyThreadEvent applies
  cases check event with
  | ok =>
    by_cases hstale : event.sequence ≤ s.sequence
    · simp [hstale, Nat.not_lt.mpr hstale]
    · cases hthread : event.threadId with
      | none => simp [hstale, Nat.not_le.mp hstale]
      | some id => by_cases hid : id = s.threadId <;> simp [hstale, Nat.not_le.mp hstale, hid]
  | _ => simp

/-- A finished checkpoint is not taken back to its start. -/
def keepsCheckpoint (phase : CheckpointPhase) (run : Run) : Prop :=
  phase = .start ∧ (run.checkpoint.map (·.status) = some .ready ∨ run.checkpoint.map (·.status) = some .absent)

instance (phase : CheckpointPhase) (run : Run) : Decidable (keepsCheckpoint phase run) :=
  inferInstanceAs (Decidable (_ ∧ _))

/-- The run under the id after the event, by what it was before. -/
def runAfter (threadId : String) (payload : WirePayload) (id : String) (run : Option Run) : Option Run :=
  match payload with
  | .runStarted started =>
    if started.threadId = threadId ∧ started.id = id then
      some (keepCheckpoint (run.bind (·.checkpoint)) started)
    else run
  | .runEnded runId status completedAt =>
    if runId = id then run.map fun run => { run with status, completedAt := some completedAt } else run
  | .checkpointCaptured checkpoint phase _ =>
    if checkpoint.runId = id ∧ checkpoint.threadId = threadId then
      run.map fun run => if keepsCheckpoint phase run then run else { run with checkpoint := some checkpoint }
    else run
  | .checkpointExpired runId =>
    if runId = id then
      run.map fun run => { run with checkpoint := run.checkpoint.map fun c => { c with live := some false } }
    else run
  | _ => run

variable {runs : Table Run.id}

theorem find?_rewritten {run : Run}
    (hrun : runs.find? run.id = some run) (id : String) (f : Run → Run) (hf : (f run).id = run.id) :
    (runs.set (f run)).find? id = if run.id = id then (runs.find? id).map f else runs.find? id := by
  rw [Table.find?_set, hf]
  split_ifs with hid
  · rw [← hid, hrun, Option.map_some]
  · rfl

theorem find?_unheld {runId id : String} (hrun : runs.find? runId = none)
    (f : Run → Run) : runs.find? id = if runId = id then (runs.find? id).map f else runs.find? id := by
  split_ifs with hid
  · rw [← hid, hrun, Option.map_none]
  · rfl

theorem find?_kept {run : Run} {id : String} (hrun : runs.find? run.id = some run) (f : Run → Run) (hf : f run = run) :
    runs.find? id = if run.id = id then (runs.find? id).map f else runs.find? id := by
  split_ifs with hid
  · rw [← hid, hrun, Option.map_some, hf]
  · rfl

theorem runs_threadEvent (id : String) :
    (threadEvent s event).runs.find? id = runAfter s.threadId event.payload id (s.runs.find? id) := by
  unfold threadEvent runAfter
  cases event.payload with
  | runStarted started =>
    have hkey (prior : Option RunCheckpoint) : (keepCheckpoint prior started).id = started.id := by
      unfold keepCheckpoint
      split <;> rfl
    dsimp only
    by_cases hthread : started.threadId = s.threadId
    · rw [if_pos hthread, Table.find?_set, hkey]
      by_cases hid : started.id = id
      · rw [if_pos hid, if_pos ⟨hthread, hid⟩, hid]
      · rw [if_neg hid, if_neg fun h => hid h.2]
    · rw [if_neg hthread, if_neg fun h => hthread h.1]
  | runEnded runId status completedAt =>
    cases hrun : s.runs.find? runId with
    | none => simpa only [hrun] using find?_unheld hrun _
    | some run =>
      obtain rfl : run.id = runId := Table.key_of_find? hrun
      simpa only [hrun] using
        find?_rewritten hrun id (fun run => { run with status, completedAt := some completedAt }) rfl
  | checkpointCaptured checkpoint phase extra =>
    dsimp only
    by_cases hthread : checkpoint.threadId = s.threadId
    · simp only [hthread, and_true, not_true, ne_eq, if_false]
      cases hrun : s.runs.find? checkpoint.runId with
      | none => exact find?_unheld hrun _
      | some run =>
        have hkey : run.id = checkpoint.runId := Table.key_of_find? hrun
        rw [← hkey] at hrun ⊢
        dsimp only
        by_cases hkeeps : keepsCheckpoint phase run
        · rw [if_pos (show _ ∧ _ from hkeeps)]
          exact find?_kept hrun _ (if_pos hkeeps)
        · rw [if_neg (show ¬(_ ∧ _) from hkeeps)]
          have hset := find?_rewritten hrun id
            (fun run => if keepsCheckpoint phase run then run else { run with checkpoint := some checkpoint })
            (by rw [if_neg hkeeps])
          rwa [if_neg hkeeps] at hset
    · have hnone : ¬(checkpoint.runId = id ∧ checkpoint.threadId = s.threadId) := fun h => hthread h.2
      rw [if_neg hnone]
      split
      · rfl
      · rw [if_pos hthread]
  | checkpointExpired runId =>
    cases hrun : s.runs.find? runId with
    | none => simpa only [hrun] using find?_unheld hrun _
    | some run =>
      obtain rfl : run.id = runId := Table.key_of_find? hrun
      cases hcheckpoint : run.checkpoint with
      | none =>
        have hsame : { run with checkpoint := run.checkpoint.map fun c => { c with live := some false } } = run := by
          rw [hcheckpoint, Option.map_none, ← hcheckpoint]
        simpa only [hrun, hcheckpoint] using find?_kept hrun
          (fun run => { run with checkpoint := run.checkpoint.map fun c => { c with live := some false } }) hsame
      | some checkpoint =>
        have hset := find?_rewritten hrun id
          (fun run => { run with checkpoint := run.checkpoint.map fun c => { c with live := some false } }) rfl
        rw [hcheckpoint, Option.map_some] at hset
        simpa only [hrun, hcheckpoint] using hset
  | _ => dsimp only <;> repeat' split <;> rfl

/-- The item under the id after the event, `ordinal` being where its event puts it. -/
def itemAfter (threadId : String) (payload : WirePayload) (ordinal : Int) (id : String) (item : Option TurnItem) :
    Option TurnItem :=
  match payload with
  | .turnItemUpdated incoming =>
    if incoming.threadId = threadId ∧ incoming.id = id then some (incoming.at ordinal) else item
  | _ => item

theorem items_threadEvent : ∃ ordinal : Int,
    (∀ item m, event.payload = .turnItemUpdated item → item.ordinal = some m → ordinal = m) ∧
      ∀ id, (threadEvent s event).items.find? id =
        itemAfter s.threadId event.payload ordinal id (s.items.find? id) := by
  unfold threadEvent itemAfter
  cases event.payload with
  | turnItemUpdated incoming =>
    refine ⟨incoming.ordinal.getD (((s.items.find? incoming.id).map (·.ordinal)).getD (nextOrdinal s.items)),
      fun item m heq hm => ?_, fun id => ?_⟩
    · cases heq
      rw [hm, Option.getD_some]
    · dsimp only
      by_cases hthread : incoming.threadId = s.threadId
      · by_cases hid : incoming.id = id <;> simp [hthread, hid, Table.find?_set, TurnItemOf.at]
      · simp [hthread]
  | _ =>
    refine ⟨0, (fun item m heq => by cases heq), fun id => ?_⟩
    dsimp only
    repeat' split
    all_goals rfl

end

end

/-! ### What an event may do to a run of the page -/

/-- What the event says of the run is what the run says already. -/
def Leaves (threadId : String) (payload : WirePayload) (run : Run) : Prop :=
  match payload with
  | .runStarted started =>
    started.threadId = threadId → started.id = run.id → run.checkpoint.isSome = true →
      started.checkpoint.isSome = true
  | .runEnded runId status completedAt =>
    runId = run.id → run.status = status ∧ run.completedAt = some completedAt
  | .checkpointCaptured checkpoint phase _ =>
    checkpoint.runId = run.id → checkpoint.threadId = threadId →
      keepsCheckpoint phase run ∨ run.checkpoint = some checkpoint
  | .checkpointExpired runId => runId = run.id → ∀ c ∈ run.checkpoint, c.live = some false
  | _ => True

/-- The event leaves the runs of the page that the thread does not have when it is applied. -/
def Spares (page : HistoryPage) (s : ThreadState) (event : ThreadEvent) : Prop :=
  applies s event = true → ∀ run, pageRun page s.threadId run.id = some run → s.runs.find? run.id = none →
    Leaves s.threadId event.payload run

/-- An event about a run that only the page has comes to the same before and after it exactly when it leaves it. -/
theorem runAfter_unheld (threadId : String) (payload : WirePayload) (run : Run) :
    (runAfter threadId payload run.id none).or (some run) = runAfter threadId payload run.id (some run) ↔
      Leaves threadId payload run := by
  cases payload with
  | runStarted started =>
    simp only [runAfter, Leaves]
    by_cases hmine : started.threadId = threadId ∧ started.id = run.id
    · simp only [hmine, and_self, if_true, Option.bind_none, Option.some_or, Option.bind_some, Option.some.injEq,
        true_imp_iff]
      cases hcheckpoint : started.checkpoint with
      | some c => simp [keepCheckpoint, hcheckpoint]
      | none => cases hrun : run.checkpoint <;> simp [keepCheckpoint, hcheckpoint]
    · rw [if_neg hmine, if_neg hmine]
      simp only [Option.none_or, true_iff]
      exact fun hthread hid => absurd ⟨hthread, hid⟩ hmine
  | runEnded runId status completedAt =>
    simp only [runAfter, Leaves]
    by_cases hid : runId = run.id
    · simp only [hid, if_true, Option.map_none, Option.map_some, Option.none_or, Option.some.injEq, true_imp_iff]
      constructor
      · intro heq
        exact ⟨congrArg Run.status heq, congrArg Run.completedAt heq⟩
      · rintro ⟨hstatus, hcompleted⟩
        rw [← hstatus, ← hcompleted]
    · simp [hid]
  | checkpointCaptured checkpoint phase extra =>
    simp only [runAfter, Leaves]
    by_cases hmine : checkpoint.runId = run.id ∧ checkpoint.threadId = threadId
    · simp only [hmine, and_self, if_true, Option.map_none, Option.map_some, Option.none_or, Option.some.injEq,
        true_imp_iff]
      by_cases hkeeps : keepsCheckpoint phase run
      · simp [hkeeps]
      · simp only [hkeeps, if_false, false_or]
        constructor
        · exact fun heq => congrArg Run.checkpoint heq
        · intro hcheckpoint
          rw [← hcheckpoint]
    · rw [if_neg hmine, if_neg hmine]
      simp only [Option.none_or, true_iff]
      exact fun hid hthread => absurd ⟨hid, hthread⟩ hmine
  | checkpointExpired runId =>
    simp only [runAfter, Leaves]
    by_cases hid : runId = run.id
    · simp only [hid, if_true, Option.map_none, Option.map_some, Option.none_or, Option.some.injEq, true_imp_iff]
      cases hcheckpoint : run.checkpoint with
      | none =>
        simp only [Option.map_none, Option.mem_def, reduceCtorEq, false_imp_iff, implies_true, iff_true]
        rw [← hcheckpoint]
      | some c =>
        simp only [Option.map_some, Option.mem_def, Option.some.injEq, forall_eq']
        constructor
        · intro heq
          have hc : c = { c with live := some false } :=
            Option.some.inj (hcheckpoint.symm.trans (congrArg Run.checkpoint heq))
          exact congrArg RunCheckpoint.live hc
        · intro hlive
          rw [← hlive, ← hcheckpoint]
    · simp [hid]
  | _ => simp [runAfter, Leaves]

theorem runAfter_held (threadId : String) (payload : WirePayload) (id : String) (run : Run) (page : Option Run) :
    (runAfter threadId payload id (some run)).or page = runAfter threadId payload id (some run) := by
  have hsome : (runAfter threadId payload id (some run)).isSome = true := by
    cases payload <;> simp only [runAfter] <;> (try split) <;> rfl
  obtain ⟨next, hnext⟩ := Option.isSome_iff_exists.mp hsome
  rw [hnext, Option.some_or]

/-! ### One event -/

/-- The page comes after an event and before it: the runs and items are the same exactly when the event leaves the
runs that only the page has. -/
theorem sameRows_step (hrows : SameRows (mergeHistoryPage s page) t) (hthread : t.threadId = s.threadId)
    (happlies : applies t event = applies s event) :
    SameRows (mergeHistoryPage (applyThreadEvent s event) page) (applyThreadEvent t event) ↔ Spares page s event := by
  rw [applyThreadEvent_eq, applyThreadEvent_eq, happlies]
  by_cases hnew : applies s event = true
  · simp only [hnew, if_true, Spares, true_imp_iff]
    have hsame : (threadEvent s event).threadId = s.threadId := (threadEvent_fields s event).1
    have hruns (id : String) : (mergeHistoryPage (threadEvent s event) page).runs.find? id =
        (runAfter s.threadId event.payload id (s.runs.find? id)).or (pageRun page s.threadId id) := by
      rw [runs_mergeHistoryPage, runs_threadEvent, hsame]
    have hruns' (id : String) : (threadEvent t event).runs.find? id =
        runAfter s.threadId event.payload id ((s.runs.find? id).or (pageRun page s.threadId id)) := by
      rw [runs_threadEvent, hthread, ← hrows.runs, runs_mergeHistoryPage]
    constructor
    · intro hafter run hpage hnone
      have hid := hafter.runs run.id
      rw [hruns, hruns', hnone, hpage, Option.none_or] at hid
      exact (runAfter_unheld s.threadId event.payload run).mp hid
    · intro hleaves
      refine ⟨fun id => ?_, fun id => ?_⟩
      · rw [hruns, hruns']
        cases hheld : s.runs.find? id with
        | some run => rw [Option.some_or, runAfter_held]
        | none =>
          cases hpage : pageRun page s.threadId id with
          | none => rw [Option.or_none, Option.none_or]
          | some run =>
            obtain rfl : run.id = id := by simpa using List.find?_some hpage
            exact (runAfter_unheld s.threadId event.payload run).mpr (hleaves run hpage hheld)
      · obtain ⟨ordinal, -, hitems⟩ := items_threadEvent s event
        obtain ⟨ordinal', -, hitems'⟩ := items_threadEvent t event
        have hold := hrows.items id
        rw [items_mergeHistoryPage] at hold
        rw [items_mergeHistoryPage, hitems, hitems', hsame, hthread]
        cases event.payload with
        | turnItemUpdated incoming =>
          simp only [itemAfter]
          split
          · rfl
          · exact hold
        | _ => exact hold
  · rw [if_neg hnew, if_neg hnew]
    exact iff_of_true hrows fun happly => absurd happly hnew

theorem items_step (hitems : ∀ id, (mergeHistoryPage s page).items.find? id = t.items.find? id)
    (hthread : t.threadId = s.threadId) (happlies : applies t event = applies s event) (hplaced : Placed [event])
    (id : String) :
    (mergeHistoryPage (applyThreadEvent s event) page).items.find? id =
      (applyThreadEvent t event).items.find? id := by
  rw [applyThreadEvent_eq, applyThreadEvent_eq, happlies]
  by_cases hnew : applies s event = true
  · simp only [hnew, if_true]
    obtain ⟨ordinal, hordinal, hs⟩ := items_threadEvent s event
    obtain ⟨ordinal', hordinal', ht⟩ := items_threadEvent t event
    have hold := hitems id
    rw [items_mergeHistoryPage] at hold
    rw [items_mergeHistoryPage, hs, ht, (threadEvent_fields s event).1, hthread]
    cases hpay : event.payload with
    | turnItemUpdated incoming =>
      obtain ⟨m, hm⟩ := Option.isSome_iff_exists.mp (hplaced event (List.mem_singleton_self _) incoming hpay)
      rw [hordinal incoming m hpay hm, hordinal' incoming m hpay hm]
      simp only [itemAfter]
      split
      · rfl
      · exact hold
    | _ => exact hold
  · simp only [hnew]
    exact hitems id

/-! ### A list of events -/

theorem threadId_applyEvents (s : ThreadState) (events : List ThreadEvent) :
    (applyEvents s events).threadId = s.threadId := by
  induction events generalizing s with
  | nil => rfl
  | cons event rest ih => exact (ih _).trans (threadId_applyThreadEvent s event)

theorem sequence_applyEvents (s : ThreadState) (events : List ThreadEvent) :
    s.sequence ≤ (applyEvents s events).sequence ∧ ((applyEvents s events).sequence = s.sequence ∨
        ∃ event ∈ events, (applyEvents s events).sequence = event.sequence) := by
  induction events generalizing s with
  | nil => exact ⟨le_rfl, .inl rfl⟩
  | cons event rest ih =>
    obtain ⟨hle, hlast⟩ := ih (applyThreadEvent s event)
    obtain ⟨hle', hfirst⟩ := sequence_applyThreadEvent s event
    refine ⟨hle'.trans hle, ?_⟩
    rcases hlast with hsame | ⟨later, hlater, hseq⟩
    · exact hfirst.imp (fun h => hsame.trans h) fun h => ⟨event, List.mem_cons_self, hsame.trans h⟩
    · exact .inr ⟨later, List.mem_cons_of_mem _ hlater, hseq⟩

section

variable (hlater : ∀ e ∈ events, e.sequence < event.sequence)
include hlater

theorem lt_sequence_applyEvents : (applyEvents s events).sequence < event.sequence ↔ s.sequence < event.sequence := by
  obtain ⟨hle, hsame | ⟨e, he, hseq⟩⟩ := sequence_applyEvents s events
  · rw [hsame]
  · exact ⟨fun h => hle.trans_lt h, fun _ => hseq ▸ hlater e he⟩

theorem applies_merged :
    applies (applyEvents (mergeHistoryPage s page) events) event = applies (applyEvents s events) event := by
  have hsequence : ((applyEvents (mergeHistoryPage s page) events).sequence < event.sequence) =
      ((applyEvents s events).sequence < event.sequence) := by
    rw [eq_iff_iff, lt_sequence_applyEvents hlater, lt_sequence_applyEvents hlater]
    rfl
  simp only [applies, hsequence, threadId_applyEvents]
  rfl

end

theorem applyEvents_succ (s : ThreadState) {n : Nat} (h : events[n]? = some event) :
    applyEvents s (events.take (n + 1)) = applyThreadEvent (applyEvents s (events.take n)) event := by
  rw [List.take_add_one, h, applyEvents, List.foldl_append]
  rfl

theorem take_succ_of_none {n : Nat} (h : events[n]? = none) : events.take (n + 1) = events.take n := by
  rw [List.take_add_one, h, Option.toList_none, List.append_nil]

theorem before_of_pairwise (hseq : events.Pairwise fun a b => a.sequence < b.sequence) {n : Nat}
    (h : events[n]? = some event) : ∀ e ∈ events.take n, e.sequence < event.sequence := by
  intro e he
  obtain ⟨i, hi, rfl⟩ := List.mem_take_iff_getElem.mp he
  obtain ⟨hn, rfl⟩ := List.getElem?_eq_some_iff.mp h
  exact List.pairwise_iff_getElem.mp hseq i n _ hn (Nat.lt_min.mp hi).1

/-- The page may come before or after any of the events exactly when each event, as it comes, leaves the runs that
only the page has; where every item event has its place, the items are the same altogether. -/
theorem merge_commutes_iff (s : ThreadState) (page : HistoryPage) (events : List ThreadEvent)
    (hseq : events.Pairwise fun a b => a.sequence < b.sequence) :
    ((∀ n, Commutes s page (events.take n)) ↔
        ∀ n event, events[n]? = some event → Spares page (applyEvents s (events.take n)) event) ∧
      (Placed events → ∀ n id, (mergeHistoryPage (applyEvents s (events.take n)) page).items.find? id =
          (applyEvents (mergeHistoryPage s page) (events.take n)).items.find? id) := by
  have hthread (n : Nat) : (applyEvents (mergeHistoryPage s page) (events.take n)).threadId =
      (applyEvents s (events.take n)).threadId := by
    rw [threadId_applyEvents, threadId_applyEvents]
    rfl
  have hstep {n : Nat} {event : ThreadEvent} (h : events[n]? = some event) (hrows : Commutes s page (events.take n)) :
      Commutes s page (events.take (n + 1)) ↔ Spares page (applyEvents s (events.take n)) event := by
    rw [Commutes, applyEvents_succ _ h, applyEvents_succ _ h]
    exact sameRows_step hrows (hthread n) (applies_merged (before_of_pairwise hseq h))
  refine ⟨⟨fun hall n event h => (hstep h (hall n)).mp (hall (n + 1)), fun hspares n => ?_⟩, fun hplaced n => ?_⟩
  · induction n with
    | zero => exact ⟨fun _ => rfl, fun _ => rfl⟩
    | succ n ih =>
      cases h : events[n]? with
      | some event => exact (hstep h ih).mpr (hspares n event h)
      | none => rwa [take_succ_of_none h]
  · induction n with
    | zero => exact fun _ => rfl
    | succ n ih =>
      intro id
      cases h : events[n]? with
      | some event =>
        rw [applyEvents_succ _ h, applyEvents_succ _ h]
        refine items_step ih (hthread n) (applies_merged (before_of_pairwise hseq h)) ?_ id
        intro e he
        exact hplaced e (List.mem_singleton.mp he ▸ List.mem_of_getElem? h)
      | none =>
        rw [take_succ_of_none h]
        exact ih id

/-! ### A page on its way -/

def waitingThread : ThreadState where
  threadId := "t1"
  sequence := 10
  syncing := false
  thread := none
  runs := .ofList [{ id := "r2", threadId := "t1", ordinal := 1, status := .running, startedAt := 5 }]
  items := .empty
  requests := .empty
  queue := []
  historyCursor := some 1
  dispatchFailure := none
  queueAutoResume := none

/-- The page before it, taken at the thread's sequence: an older run with its snapshot. -/
def olderPage : HistoryPage where
  runs := [⟨{ id := "r1", threadId := "t1", ordinal := 0, status := .completed, startedAt := 1, completedAt := some 2
              checkpoint := some { runId := "r1", threadId := "t1", appRunOrdinal := 0, status := .ready
                                   live := some true, files := [], additions := 0, deletions := 0 } }, []⟩]
  loose := []
  nextCursor := none

def lateEvent (sequence : Nat) (payload : WirePayload) : ThreadEvent :=
  { sequence, threadId := some "t1", commandId := none, ts := 0, payload }

/-- The thread's own run ends while the page is on its way. -/
theorem merge_commutes_held : Commutes waitingThread olderPage [lateEvent 11 (.runEnded "r2" .completed 9)] := by
  refine (merge_commutes_iff waitingThread olderPage [lateEvent 11 (.runEnded "r2" .completed 9)]
    (List.pairwise_singleton _ _)).1.mpr (fun n event h => ?_) 1
  have hevent : event = lateEvent 11 (.runEnded "r2" .completed 9) := List.mem_singleton.mp (List.mem_of_getElem? h)
  subst hevent
  intro _ run hpage _ hid
  -- The only run of the page is another.
  have hother : pageRun olderPage "t1" "r2" = none := by decide +kernel
  rw [threadId_applyEvents, ← hid] at hpage
  exact absurd (hother.symm.trans hpage) (by simp)

/-- The older run's snapshot expires while the page is on its way: the event is dropped, and the page brings the
snapshot back as live. -/
theorem merge_loses_expiry : ¬Commutes waitingThread olderPage [lateEvent 11 (.checkpointExpired "r1")] :=
  fun h => absurd (h.runs "r1") (by decide +kernel)

end Sightr.Client
