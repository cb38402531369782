import Sightr.Checkpoints.Sweep

/-!
# What the sweep may delete

The sweep works in a store's slot on the rows it read there, but it read the store's meta file and looked for the
repository before it had the slot. As long as what it read still holds when it gets the slot, every ref it deletes
belongs to a row that retention lets go, and the row is expired with it.
-/

namespace Sightr.Checkpoints.SweepWorld

open Keyed Runs

variable {c : SweepConfig} {w w' : SweepWorld} {sw : Sweep} {s : SweepSlot} {time : Int} {ids : List String}
variable {r cur : CheckpointSweepRow}

/-! ### What retention allows -/

def lastGc (calls : List GitCall) : Option Bool :=
  calls.foldl (fun last call => match call with
    | .gc ok => some ok
    | _ => last) none

def Missing (s : SweepSlot) (r : CheckpointSweepRow) : Prop := GitCall.objectsMissing r.runId (some true) ∈ s.calls

section

variable (c : SweepConfig)

/-- The store was over its cap after a gc that succeeded. -/
def OverCap (s : SweepSlot) : Prop :=
  ∃ earlier b, s.calls = earlier ++ [.storeBytes (some b)] ∧ c.maxStoreBytes < b ∧ lastGc earlier = some true

/-- The row is expired, and of its refs none is left that the first deletion did not try. -/
def Dropped (w' : SweepWorld) (time : Int) (s : SweepSlot) (r : CheckpointSweepRow) : Prop :=
  (∀ cur ∈ w'.rows.rows, cur.runId = r.runId → cur.objectsExpiredAt.isSome) ∧
    ∀ ref ∈ refsOf r, ref ∈ w'.refs s.store.key → r.runId ∈ dueRows s.rows time

/-- Why a ref of the row may go: it is due, was expired, its objects are gone, or the store is over its cap, the row
is finished, and every older finished row that was live is dropped too. -/
def MayDelete (time : Int) (s : SweepSlot) (w' : SweepWorld) (r : CheckpointSweepRow) : Prop :=
  r.runId ∈ dueRows s.rows time ∨ r.objectsExpiredAt.isSome ∨ Missing s r ∨
    (OverCap c s ∧ r.status ≠ .pending ∧ ∀ q ∈ s.mine, q.objectsExpiredAt = none → q.status ≠ .pending →
      q.runStartedAt < r.runStartedAt → Dropped w' time s q)

/-- A step of the sweep that deletes and expires what retention allows. -/
structure Lawful (c : SweepConfig) (w w' : SweepWorld) : Prop where
  /-- A ref goes with its whole store, or its row may go. -/
  refs : ∀ key ref, ref ∈ w.refs key → ref ∉ w'.refs key → ∃ sw s, w.sweep = some sw ∧ w.slot? = some s ∧
    s.store.key = key ∧ (w'.stores key = none ∨ ∀ r ∈ s.rows, ref ∈ refsOf r → MayDelete c sw.time s w' r)
  /-- A store goes whole if its repository was gone, or no row named it. -/
  whole : ∀ key, (w.stores key).isSome → w'.stores key = none → ∃ s, w.slot? = some s ∧ s.store.key = key ∧
    (s.there = false ∨ ∀ r ∈ s.rows, r.repoRoot ≠ "" → s.repo ≠ some r.repoRoot)
  /-- A young row that waits for its run's end is expired if its objects or its repository are gone. -/
  pending : ∀ cur ∈ w.rows.rows, cur.status = .pending → cur.objectsExpiredAt = none →
    ∀ cur' ∈ w'.rows.rows, cur'.runId = cur.runId → cur'.objectsExpiredAt.isSome →
    ∃ sw, w.sweep = some sw ∧ (pendingAge sw.time cur ≤ PENDING_MAX_MS → w.present cur.repoRoot = false ∨
      ∃ s, w.slot? = some s ∧ (Missing s cur ∨ (s.there = false ∧ s.repo = some cur.repoRoot)))

/-- What the sweep read of a store holds: the meta file names the repository it named, which is there or gone as it
was, and every row with a ref in the store names it too. -/
def Reads (w : SweepWorld) (s : ListedStore) (rootGone : Bool) : Prop :=
  s.root.isSome ∧ (w.stores s.key).bind StoreDir.root = s.root ∧ rootGone = !s.root.any w.present ∧
    ∀ r ∈ w.rows.rows, ∀ ref ∈ refsOf r, ref ∈ w.refs s.key → r.repoRoot ≠ "" ∧ s.root = some r.repoRoot

instance (w : SweepWorld) (s : ListedStore) (rootGone : Bool) : Decidable (w.Reads s rootGone) :=
  inferInstanceAs (Decidable (_ ∧ _ ∧ _ ∧ _))

/-- When the sweep gets a store's slot, what it read of the store still holds; and a store that is over its cap was
collected in the slot. -/
def Current (w : SweepWorld) : SweepEvent → Prop
  | .enter => match w.sweep with
    | some { stage := .waiting s rootGone _, .. } => w.Reads s rootGone
    | _ => True
  | .bytes answer => match w.slot? with
    | some s => answer.any (c.maxStoreBytes < ·) → lastGc s.calls = some true
    | none => True
  | _ => True

/-! ### How rows change -/

structure Evolves (r cur : CheckpointSweepRow) : Prop where
  threadId : cur.threadId = r.threadId
  ordinal : cur.appRunOrdinal = r.appRunOrdinal
  status : cur.status = .pending → r.status = .pending
  startAt : cur.startAt = r.startAt
  runStartedAt : cur.runStartedAt = r.runStartedAt
  repoRoot : r.repoRoot ≠ "" → cur.repoRoot = r.repoRoot
  expired : r.objectsExpiredAt.isSome → cur.objectsExpiredAt.isSome

theorem Evolves.refl (r : CheckpointSweepRow) : Evolves r r := ⟨rfl, rfl, id, rfl, rfl, fun _ => rfl, id⟩

theorem Evolves.trans {a b d : CheckpointSweepRow} (h : Evolves a b) (h' : Evolves b d) : Evolves a d where
  threadId := h'.threadId.trans h.threadId
  ordinal := h'.ordinal.trans h.ordinal
  status hd := h.status (h'.status hd)
  startAt := h'.startAt.trans h.startAt
  runStartedAt := h'.runStartedAt.trans h.runStartedAt
  repoRoot ha := (h'.repoRoot ((h.repoRoot ha).symm ▸ ha)).trans (h.repoRoot ha)
  expired ha := h'.expired (h.expired ha)

theorem evolves_expireRow (runIds : List String) (clock : Int) (r : CheckpointSweepRow) :
    Evolves r (expireRow runIds clock r) := by
  unfold expireRow
  split_ifs
  · exact ⟨rfl, rfl, id, rfl, rfl, fun _ => rfl, fun _ => rfl⟩
  · exact .refl r

theorem evolves_finishRow {status : CheckpointStatus} (hstatus : status ≠ .pending) (runId repoRoot : String)
    (endCommit : Option String) (r : CheckpointSweepRow) :
      Evolves r (finishRow runId status repoRoot endCommit r) := by
  unfold finishRow
  by_cases hid : r.runId = runId
  · rw [if_pos hid]
    exact ⟨rfl, rfl, fun h => absurd h hstatus, rfl, rfl, fun h => if_neg h, id⟩
  · rw [if_neg hid]
    exact .refl r

theorem evolves_archiveRow (threadId : String) (time : Option Int) (r : CheckpointSweepRow) :
    Evolves r (archiveRow threadId time r) := by
  unfold archiveRow
  split_ifs
  · exact ⟨rfl, rfl, id, rfl, rfl, fun _ => rfl, id⟩
  · exact .refl r

variable {runIds : List String}

theorem isSome_expireRow {clock : Int} (h : r.runId ∈ runIds) :
    (expireRow runIds clock r).objectsExpiredAt.isSome := by
  unfold expireRow
  split_ifs with hlive
  · rfl
  · by_contra hnone
    exact hlive ⟨h, by simpa using hnone⟩

/-- Every row is an earlier one, as events left it, or is new. -/
def Moves (w w' : SweepWorld) : Prop :=
  ∀ cur' ∈ w'.rows.rows, (∃ cur ∈ w.rows.rows, cur.runId = cur'.runId ∧ Evolves cur cur') ∨ cur'.runId ∉ w.used

theorem moves_of_eq (h : w'.rows = w.rows) : Moves w w' := by
  intro cur hcur
  rw [h] at hcur
  exact .inl ⟨cur, hcur, rfl, .refl cur⟩

theorem moves_expireIds (w : SweepWorld) {w' : SweepWorld} (h : w'.rows = w.expireIds runIds) : Moves w w' := by
  intro cur' hcur
  rw [h] at hcur
  obtain ⟨cur, hmem, rfl⟩ := List.mem_map.mp hcur
  exact .inl ⟨cur, hmem, (runId_expireRow _ _ _).symm, evolves_expireRow _ _ _⟩

variable {runId : String}

theorem Moves.expired (h : Moves w w') (hused : runId ∈ w.used)
    (hexpired : ∀ r ∈ w.rows.rows, r.runId = runId → r.objectsExpiredAt.isSome) :
    ∀ r ∈ w'.rows.rows, r.runId = runId → r.objectsExpiredAt.isSome := by
  intro r hr hid
  obtain ⟨cur, hcur, hcurid, hevolves⟩ | hnew := h r hr
  · exact hevolves.expired (hexpired cur hcur (hcurid.trans hid))
  · exact absurd (hid ▸ hused) hnew

def DistinctRefs (rows : List CheckpointSweepRow) : Prop :=
  ∀ a ∈ rows, ∀ b ∈ rows, a.threadId = b.threadId → a.appRunOrdinal = b.appRunOrdinal → a.runId = b.runId

variable {ref : Ref}

theorem eq_of_mem_refsOf (hr : ref ∈ refsOf r) (hcur : ref ∈ refsOf cur) :
    r.threadId = cur.threadId ∧ r.appRunOrdinal = cur.appRunOrdinal := by
  unfold refsOf at hr hcur
  simp only [List.mem_cons, List.not_mem_nil, or_false] at hr hcur
  obtain rfl | rfl := hr <;> simpa using hcur

/-! ### What holds in a slot -/

/-- The refs of the store's rows are among those left, but for what the first deletion tried. -/
def Covered (w : SweepWorld) (time : Int) (s : SweepSlot) : Prop :=
  ∀ r ∈ s.mine, ∀ ref ∈ refsOf r, ref ∈ w.refs s.store.key →
    ref ∈ s.left ∨ r.runId ∈ dueRows s.rows time ∨ r.objectsExpiredAt.isSome

def StageSound (w : SweepWorld) (time : Int) (ids : List String) (s : SweepSlot) : Prop :=
  match s.stage with
  | .removing => s.rootGone ∨ s.mine = []
  | .listing => ∀ r ∈ s.mine, r.objectsExpiredAt = none → r.runId ∉ ids
  | .deletingGone gone expiring => Covered w time s ∧ (∀ ref ∈ gone, ∀ r ∈ s.mine, ref ∈ refsOf r → r ∈ expiring) ∧
      ∀ r ∈ expiring, r ∈ s.mine ∧ (r.runId ∈ dueRows s.rows time ∨ r.objectsExpiredAt.isSome)
  | .sizing | .collecting .first _ | .collecting .again _ | .capping _ => Covered w time s
  | .collecting (.probing todo broken) _ => Covered w time s ∧ (∀ r ∈ todo, r ∈ s.mine) ∧
      ∀ r ∈ broken, r ∈ s.mine ∧ Missing s r
  | .collecting (.deleting broken refs) _ => Covered w time s ∧ refs = s.refsLeft broken ∧
      ∀ r ∈ broken, r ∈ s.mine ∧ Missing s r
  | .dropping _ batch refs => Covered w time s ∧ refs = s.refsLeft batch ∧ batch = s.batch ids ∧ OverCap c s

end

structure SlotSound (c : SweepConfig) (w : SweepWorld) (time : Int) (ids : List String) (s : SweepSlot) : Prop where
  held : w.held s.store.key = false
  keys : (s.rows.map CheckpointSweepRow.runId).Nodup
  used : ∀ r ∈ s.rows, r.runId ∈ w.used
  distinct : DistinctRefs s.rows
  evolves : ∀ r ∈ s.rows, ∀ cur ∈ w.rows.rows, cur.runId = r.runId → Evolves r cur
  repo : ∃ root, s.store.root = some root ∧ s.repo = some root ∧ s.rootGone = !s.there
  mine : ∀ r ∈ s.rows, ∀ ref ∈ refsOf r, ref ∈ w.refs s.store.key → r ∈ s.mine
  /-- What the sweep expired has no ref left that the first deletion did not try. -/
  fresh : ∀ r ∈ s.mine, r.objectsExpiredAt = none → r.runId ∈ ids → ∀ ref ∈ refsOf r,
    ref ∈ w.refs s.store.key → r.runId ∈ dueRows s.rows time
  stage : StageSound c w time ids s

theorem Covered.mono (h : Covered w time s) (hrefs : ∀ ref ∈ w'.refs s.store.key, ref ∈ w.refs s.store.key) :
    Covered w' time s :=
  fun r hr ref href hmem => h r hr ref href (hrefs ref hmem)

theorem StageSound.mono (h : StageSound c w time ids s)
    (hrefs : ∀ ref ∈ w'.refs s.store.key, ref ∈ w.refs s.store.key) : StageSound c w' time ids s := by
  unfold StageSound at h ⊢
  split at h
  · exact h
  · exact h
  · exact ⟨h.1.mono hrefs, h.2⟩
  · exact h.mono hrefs
  · exact h.mono hrefs
  · exact h.mono hrefs
  · exact h.mono hrefs
  · exact ⟨h.1.mono hrefs, h.2⟩
  · exact ⟨h.1.mono hrefs, h.2⟩
  · exact ⟨h.1.mono hrefs, h.2⟩

theorem SlotSound.mono (h : SlotSound c w time ids s) (hheld : w'.held s.store.key = false)
    (hused : ∀ id ∈ w.used, id ∈ w'.used) (hmoves : Moves w w')
    (hrefs : ∀ ref ∈ w'.refs s.store.key, ref ∈ w.refs s.store.key) : SlotSound c w' time ids s := { h with
  held := hheld
  used := fun r hr => hused _ (h.used r hr)
  evolves := fun r hr cur hcur hid => by
    obtain ⟨b, hb, hbid, hevolves⟩ | hnew := hmoves cur hcur
    · exact (h.evolves r hr b hb (hbid.trans hid)).trans hevolves
    · exact absurd (hid ▸ h.used r hr) hnew
  mine := fun r hr ref href hmem => h.mine r hr ref href (hrefs ref hmem)
  fresh := fun r hr hnone hexpired ref href hmem => h.fresh r hr hnone hexpired ref href (hrefs ref hmem)
  stage := h.stage.mono hrefs }

variable {left : List Ref} {calls : List GitCall} {stage : SlotStage}

theorem SlotSound.goes (h : SlotSound c w time ids s) (hstage : StageSound c w time ids { s with left, calls, stage }) :
    SlotSound c w time ids { s with left, calls, stage } :=
  ⟨h.held, h.keys, h.used, h.distinct, h.evolves, h.repo, h.mine, h.fresh, hstage⟩

theorem mem_rows_of_mem_mine (h : r ∈ s.mine) : r ∈ s.rows := by
  unfold SweepSlot.mine at h
  split at h
  · cases h
  · exact (List.mem_filter.mp h).1

theorem SlotSound.eq_of_ref (h : SlotSound c w time ids s) (hr : r ∈ s.rows) (hcur : cur ∈ s.rows)
    (hrefr : ref ∈ refsOf r) (hrefcur : ref ∈ refsOf cur) : r = cur := by
  obtain ⟨hthread, hordinal⟩ := eq_of_mem_refsOf hrefr hrefcur
  exact List.inj_on_of_nodup_map h.keys hr hcur (h.distinct r hr cur hcur hthread hordinal)

/-! ### What holds over a run -/

structure Kept (c : SweepConfig) (w : SweepWorld) : Prop where
  keys : ∀ r ∈ w.rows.rows, r.runId ∈ w.used
  distinct : DistinctRefs w.rows.rows
  dropped : ∀ id ∈ w.dropped, id ∈ w.used ∧ ∀ r ∈ w.rows.rows, r.runId = id → r.objectsExpiredAt.isSome
  expired : ∀ sw, w.sweep = some sw → ∀ id ∈ sw.expired, id ∈ w.used ∧
    ∀ r ∈ w.rows.rows, r.runId = id → r.objectsExpiredAt.isSome
  slot : ∀ sw s todo, w.sweep = some sw → sw.stage = .slot s todo → SlotSound c w sw.time sw.expired s
  roots : ∀ sw todo, w.sweep = some sw → sw.stage = .roots todo → ∀ r ∈ todo, r.runId ∈ w.used ∧
    ∀ cur ∈ w.rows.rows, cur.runId = r.runId → Evolves r cur

def Changes (w w' : SweepWorld) : Prop :=
  ∀ cur' ∈ w'.rows.rows, ∃ cur ∈ w.rows.rows, cur.runId = cur'.runId ∧ Evolves cur cur'

theorem Changes.moves (h : Changes w w') : Moves w w' := fun cur' hcur => .inl (h cur' hcur)

theorem changes_of_eq (h : w'.rows = w.rows) : Changes w w' := by
  intro cur hcur
  rw [h] at hcur
  exact ⟨cur, hcur, rfl, .refl cur⟩

theorem changes_modify {f : CheckpointSweepRow → CheckpointSweepRow} (hkey : ∀ r, (f r).runId = r.runId)
    (h : w'.rows = w.rows.modify f hkey) (hf : ∀ r, Evolves r (f r)) : Changes w w' := by
  intro cur' hcur
  rw [h] at hcur
  obtain ⟨cur, hmem, rfl⟩ := List.mem_map.mp hcur
  exact ⟨cur, hmem, (hkey cur).symm, hf cur⟩

theorem Changes.distinct (h : Changes w w') (hdistinct : DistinctRefs w.rows.rows) : DistinctRefs w'.rows.rows := by
  intro a ha b hb hthread hordinal
  obtain ⟨a₀, ha₀, haid, hae⟩ := h a ha
  obtain ⟨b₀, hb₀, hbid, hbe⟩ := h b hb
  rw [← haid, ← hbid]
  exact hdistinct a₀ ha₀ b₀ hb₀ (by rw [← hae.threadId, hthread, hbe.threadId])
    (by rw [← hae.ordinal, hordinal, hbe.ordinal])

variable {todo : List ListedStore}

theorem slot?_eq_some (hsw : w.sweep = some sw) (hstage : sw.stage = .slot s todo) : w.slot? = some s := by
  obtain ⟨time, expired, stage⟩ := sw
  obtain rfl : stage = _ := hstage
  unfold slot?
  rw [hsw]

theorem sweepHolds_key (hsw : w.sweep = some sw) (hstage : sw.stage = .slot s todo) : w.sweepHolds s.store.key := by
  unfold sweepHolds
  rw [slot?_eq_some hsw hstage]
  exact decide_eq_true rfl

theorem Kept.of_others (h : Kept c w) (hmoves : Moves w w') (hused : ∀ id ∈ w.used, id ∈ w'.used)
    (hkeys : ∀ r ∈ w'.rows.rows, r.runId ∈ w'.used) (hdistinct : DistinctRefs w'.rows.rows)
    (hsweep : w'.sweep = w.sweep) (hdropped : w'.dropped = w.dropped)
    (hslot : ∀ key, w.sweepHolds key → w.held key = false → w'.held key = false ∧ w'.refs key = w.refs key) :
    Kept c w' where
  keys := hkeys
  distinct := hdistinct
  dropped id hid := by
    rw [hdropped] at hid
    exact ⟨hused id (h.dropped id hid).1, hmoves.expired (h.dropped id hid).1 (h.dropped id hid).2⟩
  expired sw hsw id hid := by
    rw [hsweep] at hsw
    have hold := h.expired sw hsw id hid
    exact ⟨hused id hold.1, hmoves.expired hold.1 hold.2⟩
  slot sw s todo hsw hstage := by
    rw [hsweep] at hsw
    have hs := h.slot sw s todo hsw hstage
    obtain ⟨hheld, hrefs⟩ := hslot s.store.key (sweepHolds_key hsw hstage) hs.held
    exact hs.mono hheld hused hmoves fun ref hmem => hrefs ▸ hmem
  roots sw todo hsw hstage r hr := by
    rw [hsweep] at hsw
    obtain ⟨hid, hevolves⟩ := h.roots sw todo hsw hstage r hr
    refine ⟨hused _ hid, fun cur hcur hcurid => ?_⟩
    obtain ⟨b, hb, hbid, hb'⟩ | hnew := hmoves cur hcur
    · exact (hevolves b hb (hbid.trans hcurid)).trans hb'
    · exact absurd (hcurid ▸ hid) hnew

theorem Kept.of_changes (h : Kept c w) (hch : Changes w w') (hused : w'.used = w.used) (hsweep : w'.sweep = w.sweep)
    (hdropped : w'.dropped = w.dropped)
    (hslot : ∀ key, w.sweepHolds key → w.held key = false → w'.held key = false ∧ w'.refs key = w.refs key) :
    Kept c w' := by
  refine h.of_others hch.moves (fun id hid => hused ▸ hid) (fun r hr => ?_) (hch.distinct h.distinct) hsweep hdropped
    hslot
  obtain ⟨cur, hcur, hid, -⟩ := hch r hr
  rw [hused, ← hid]
  exact h.keys cur hcur

variable {key : String}

theorem refs_update_of_held {key' : String} {d : Option StoreDir} (hheld : w.held key = true)
    (hfree : w.held key' = false) : { w with stores := Function.update w.stores key d }.refs key' = w.refs key' := by
  have hne : key' ≠ key := fun heq => Bool.false_ne_true (hfree.symm.trans (heq ▸ hheld))
  exact congrArg (fun d => (Option.map StoreDir.refs d).getD []) (Function.update_of_ne hne _ _)

variable {a : SweepEvent}

theorem kept_others (h : Kept c w) (ha : a.bySweep = false) (hstep : w.step c a = some w') : Kept c w' := by
  have hsame : ∀ key, w.sweepHolds key → w.held key = false → w.held key = false ∧ w.refs key = w.refs key :=
    fun _ _ hfree => ⟨hfree, rfl⟩
  cases a with
  | tick clock =>
    obtain rfl := Option.some.inj hstep
    exact h.of_changes (changes_of_eq rfl) rfl rfl rfl hsame
  | appears root there =>
    obtain rfl := Option.some.inj hstep
    exact h.of_changes (changes_of_eq rfl) rfl rfl rfl hsame
  | take key =>
    simp only [step] at hstep
    split_ifs at hstep with hbusy
    obtain rfl := Option.some.inj hstep
    refine h.of_changes (changes_of_eq rfl) rfl rfl rfl fun key' hholds hfree => ⟨?_, rfl⟩
    have hne : key' ≠ key := fun heq => hbusy (by rw [← heq, hholds, Bool.or_true])
    exact (Function.update_of_ne hne _ _).trans hfree
  | release key =>
    simp only [step] at hstep
    split_ifs at hstep
    obtain rfl := Option.some.inj hstep
    refine h.of_changes (changes_of_eq rfl) rfl rfl rfl fun key' _ hfree => ⟨?_, rfl⟩
    change Function.update w.held key false key' = false
    by_cases hkey : key' = key
    · rw [hkey, Function.update_self]
    · rw [Function.update_of_ne hkey, hfree]
  | truncate key =>
    simp only [step] at hstep
    split_ifs at hstep with hheld
    obtain rfl := Option.some.inj hstep
    exact h.of_changes (changes_of_eq rfl) rfl rfl rfl fun key' _ hfree => ⟨hfree, refs_update_of_held hheld hfree⟩
  | describe key root =>
    simp only [step] at hstep
    split_ifs at hstep with hheld
    obtain rfl := Option.some.inj hstep
    exact h.of_changes (changes_of_eq rfl) rfl rfl rfl fun key' _ hfree => ⟨hfree, refs_update_of_held hheld hfree⟩
  | snapshot key ref =>
    simp only [step] at hstep
    split_ifs at hstep with hheld
    obtain rfl := Option.some.inj hstep
    exact h.of_changes (changes_of_eq rfl) rfl rfl rfl fun key' _ hfree => ⟨hfree, refs_update_of_held hheld hfree⟩
  | record row =>
    simp only [step] at hstep
    split_ifs at hstep with hnew
    obtain ⟨rows, hrows, rfl⟩ := Option.map_eq_some_iff.mp hstep
    have hmem : ∀ r ∈ rows.rows, r ∈ w.rows.rows ∨ r = row := by
      intro r hr
      rw [Table.rows_of_insert? hrows] at hr
      exact (List.mem_append.mp hr).imp_right List.mem_singleton.mp
    obtain ⟨hfresh, hother⟩ := not_or.mp hnew
    have hother : ∀ r ∈ w.rows.rows, r.threadId = row.threadId → r.appRunOrdinal ≠ row.appRunOrdinal := by
      intro r hr hthread hordinal
      exact hother (List.any_eq_true.mpr ⟨r, hr, by rw [hthread, hordinal]; simp⟩)
    refine h.of_others ?_ (fun id hid => List.mem_append_left _ hid) ?_ ?_ rfl rfl hsame
    · intro cur hcur
      obtain hcur | rfl := hmem cur hcur
      · exact .inl ⟨cur, hcur, rfl, .refl cur⟩
      · exact .inr hfresh
    · intro r hr
      obtain hr | rfl := hmem r hr
      · exact List.mem_append_left _ (h.keys r hr)
      · exact List.mem_append_right _ List.mem_cons_self
    · intro a ha b hb hthread hordinal
      obtain ha' | rfl := hmem a ha <;> obtain hb' | rfl := hmem b hb
      · exact h.distinct a ha' b hb' hthread hordinal
      · exact absurd hordinal (hother a ha' hthread)
      · exact absurd hordinal.symm (hother b hb' hthread.symm)
      · rfl
  | finish runId status repoRoot endCommit =>
    simp only [step] at hstep
    split_ifs at hstep with hstatus
    obtain rfl := Option.some.inj hstep
    exact h.of_changes (changes_modify (runId_finishRow _ _ _ _) rfl (evolves_finishRow hstatus _ _ _)) rfl rfl
      rfl hsame
  | markExpired runId =>
    obtain rfl := Option.some.inj hstep
    exact h.of_changes (changes_modify (runId_expireRow _ _) rfl (evolves_expireRow [runId] w.clock)) rfl rfl
      rfl hsame
  | archive threadId time =>
    obtain rfl := Option.some.inj hstep
    exact h.of_changes (changes_modify (runId_archiveRow _ _) rfl (evolves_archiveRow threadId time)) rfl rfl
      rfl hsame
  | drop runIds =>
    obtain rfl := Option.some.inj hstep
    refine h.of_changes (fun cur hcur => ?_) rfl rfl rfl hsame
    exact ⟨cur, (List.mem_filter.mp hcur).1, rfl, .refl cur⟩
  | _ => cases ha

/-! ### The sweep goes on -/

theorem lawful_of_same (hrows : w'.rows = w.rows) (hstores : w'.stores = w.stores) : Lawful c w w' where
  refs key ref hmem hgone := by
    unfold refs at hmem hgone
    rw [hstores] at hgone
    exact absurd hmem hgone
  whole key hsome hnone := by
    rw [hstores] at hnone
    rw [hnone] at hsome
    cases hsome
  pending cur hcur _ hlive cur' hcur' hid hexpired := by
    rw [hrows] at hcur'
    obtain rfl := w.rows.eq_of_key_eq hcur' hcur hid
    rw [hlive] at hexpired
    cases hexpired

theorem sweep_goes (hsw : w.sweep = some sw) (stage : SweepStage) :
    (w.goes stage).sweep = some { sw with stage } := by
  unfold goes
  rw [hsw]
  rfl

theorem Kept.goes (h : Kept c w) (hsw : w.sweep = some sw) {stage : SweepStage}
    (hslot : ∀ s todo, stage = .slot s todo → SlotSound c w sw.time sw.expired s)
    (hroots : ∀ todo, stage = .roots todo → ∀ r ∈ todo, r.runId ∈ w.used ∧
      ∀ cur ∈ w.rows.rows, cur.runId = r.runId → Evolves r cur) : Kept c (w.goes stage) := { h with
  expired := fun sw' hsw' => by
    rw [sweep_goes hsw] at hsw'
    obtain rfl := Option.some.inj hsw'
    exact h.expired sw hsw
  slot := fun sw' s todo hsw' hstage => by
    rw [sweep_goes hsw] at hsw'
    obtain rfl := Option.some.inj hsw'
    have hs := hslot s todo hstage
    exact hs.mono hs.held (fun _ => id) (moves_of_eq rfl) fun _ => id
  roots := fun sw' todo hsw' hstage => by
    rw [sweep_goes hsw] at hsw'
    obtain rfl := Option.some.inj hsw'
    exact hroots todo hstage }

def Steps (c : SweepConfig) (w w' : SweepWorld) : Prop := Kept c w' ∧ Lawful c w w'

theorem steps_goes (h : Kept c w) (hsw : w.sweep = some sw) {stage : SweepStage}
    (hslot : ∀ s todo, stage ≠ .slot s todo) (hroots : ∀ todo, stage ≠ .roots todo) : Steps c w (w.goes stage) :=
  ⟨h.goes hsw (fun s todo heq => absurd heq (hslot s todo)) fun todo heq => absurd heq (hroots todo),
    lawful_of_same rfl rfl⟩

theorem steps_stores (h : Kept c w) (hsw : w.sweep = some sw) (todo : List ListedStore) :
    Steps c w (w.goes (.stores todo)) :=
  steps_goes h hsw (fun _ _ heq => by cases heq) fun _ heq => by cases heq

theorem steps_slot (h : Kept c w) (hsw : w.sweep = some sw) (hs : SlotSound c w sw.time sw.expired s) :
    Steps c w (w.goes (.slot s todo)) := by
  refine ⟨h.goes hsw (fun s' todo' heq => ?_) (fun _ heq => (by cases heq)), lawful_of_same rfl rfl⟩
  cases heq
  exact hs

structure InSlot (c : SweepConfig) (w : SweepWorld) (sw : Sweep) (s : SweepSlot) (todo : List ListedStore) : Prop where
  kept : Kept c w
  now : w.sweep = some sw
  stage : sw.stage = .slot s todo

theorem InSlot.sound (h : InSlot c w sw s todo) : SlotSound c w sw.time sw.expired s :=
  h.kept.slot sw s todo h.now h.stage

theorem InSlot.slot?_eq (h : InSlot c w sw s todo) : w.slot? = some s := slot?_eq_some h.now h.stage

variable {round : Nat}

theorem steps_collected (h : InSlot c w sw s todo) {ok : Bool} (hcovered : Covered w sw.time { s with left }) :
    Steps c w (w.collected { s with left, calls, stage } todo ok round) := by
  unfold collected
  split_ifs
  · exact steps_slot h.kept h.now (h.sound.goes hcovered)
  · exact steps_stores h.kept h.now todo

variable {rows : List CheckpointSweepRow}

theorem steps_probe (h : InSlot c w sw s todo) {broken : List CheckpointSweepRow} (hcovered : Covered w sw.time s)
    (hrows : ∀ r ∈ rows, r ∈ s.mine)
    (hbroken : ∀ r ∈ broken, r ∈ s.mine ∧ Missing { s with calls } r) :
    Steps c w (w.probe { s with calls, stage } todo rows broken round) := by
  unfold probe
  split_ifs
  · exact steps_collected h hcovered
  · exact steps_slot h.kept h.now (h.sound.goes ⟨hcovered, rfl, hbroken⟩)
  · exact steps_slot h.kept h.now (h.sound.goes ⟨hcovered, hrows, hbroken⟩)

/-! ### Deletions -/

variable {refs : List Ref}

theorem mem_deletable (h : ref ∈ deletable refs) : ref ∈ refs := (List.mem_filter.mp h).1

theorem mem_deletable_of_mem_refsOf (h : ref ∈ refs) (hr : ref ∈ refsOf r) : ref ∈ deletable refs := by
  refine List.mem_filter.mpr ⟨h, ?_⟩
  unfold refsOf at hr
  simp only [List.mem_cons, List.not_mem_nil, or_false] at hr
  obtain rfl | rfl := hr <;> rfl

theorem mem_runsOf (h : runId ∈ runsOf rows refs) : ∃ r ∈ rows, r.runId = runId ∧ ∃ ref ∈ refsOf r, ref ∈ refs := by
  obtain ⟨r, hr, rfl⟩ := List.mem_map.mp h
  obtain ⟨hr, hany⟩ := List.mem_filter.mp hr
  obtain ⟨ref, href, hmem⟩ := List.any_eq_true.mp hany
  exact ⟨r, hr, rfl, ref, href, of_decide_eq_true hmem⟩

theorem mem_liveOf (h : runId ∈ w.liveOf rows) :
    runId ∈ rows.map CheckpointSweepRow.runId := (List.mem_filter.mp h).1

theorem mem_refs_without (h : ref ∈ (w.without s refs).refs key) :
    ref ∈ w.refs key ∧ (key = s.store.key → ref ∉ deletable refs) := by
  unfold SweepWorld.refs without at h
  dsimp only at h
  by_cases hkey : key = s.store.key
  · rw [hkey, Function.update_self] at h
    unfold SweepWorld.refs
    rw [hkey]
    cases hd : w.stores s.store.key with
    | none =>
      rw [hd] at h
      cases h
    | some d =>
      rw [hd] at h
      obtain ⟨hmem, hkept⟩ := List.mem_filter.mp h
      exact ⟨hmem, fun _ => of_decide_eq_true hkept⟩
  · rw [Function.update_of_ne hkey] at h
    exact ⟨h, fun heq => absurd heq hkey⟩

theorem of_mem_of_notMem_without (h : ref ∈ w.refs key) (hgone : ref ∉ (w.without s refs).refs key) :
    key = s.store.key ∧ ref ∈ deletable refs := by
  unfold SweepWorld.refs at h
  unfold SweepWorld.refs without at hgone
  dsimp only at hgone
  by_cases hkey : key = s.store.key
  · refine ⟨hkey, ?_⟩
    rw [hkey] at h
    rw [hkey, Function.update_self] at hgone
    cases hd : w.stores s.store.key with
    | none =>
      rw [hd] at h
      cases h
    | some d =>
      rw [hd] at h hgone
      by_contra hkept
      exact hgone (List.mem_filter.mpr ⟨h, decide_eq_true hkept⟩)
  · rw [Function.update_of_ne hkey] at hgone
    exact absurd h hgone

variable {ids : List String}

theorem mem_of_expired {cur' : CheckpointSweepRow} (hcur : cur ∈ w.rows.rows) (hlive : cur.objectsExpiredAt = none)
    (hcur' : cur' ∈ (w.expireIds ids).rows) (hid : cur'.runId = cur.runId) (hexpired : cur'.objectsExpiredAt.isSome) :
    cur.runId ∈ ids := by
  obtain ⟨b, hb, rfl⟩ := List.mem_map.mp hcur'
  rw [runId_expireRow] at hid
  obtain rfl := w.rows.eq_of_key_eq hb hcur hid
  unfold expireRow at hexpired
  split_ifs at hexpired with hnamed
  · exact hnamed.1
  · rw [hlive] at hexpired
    cases hexpired

theorem isSome_of_mem_expireIds (hcur : cur ∈ (w.expireIds ids).rows) (hid : cur.runId ∈ ids) :
    cur.objectsExpiredAt.isSome := by
  obtain ⟨b, -, rfl⟩ := List.mem_map.mp hcur
  rw [runId_expireRow] at hid
  exact isSome_expireRow hid

theorem SlotSound.exists_row (hs : SlotSound c w time ids s) (hrows : ∀ r ∈ rows, r ∈ s.mine)
    (hcur : cur ∈ w.rows.rows) (hid : cur.runId ∈ rows.map CheckpointSweepRow.runId) :
    ∃ r ∈ rows, Evolves r cur ∧ r.runId = cur.runId := by
  obtain ⟨r, hr, hrid⟩ := List.mem_map.mp hid
  exact ⟨r, hr, hs.evolves r (mem_rows_of_mem_mine (hrows r hr)) cur hcur hrid.symm, hrid⟩

theorem missing_of_mayDelete (hs : SlotSound c w time ids s) (hr : r ∈ s.rows) (hwhy : MayDelete c time s w' r)
    (hevolves : Evolves r cur) (hid : r.runId = cur.runId) (hstatus : cur.status = .pending)
    (hlive : cur.objectsExpiredAt = none) (hyoung : pendingAge time cur ≤ PENDING_MAX_MS) : Missing s cur := by
  have hpending := hevolves.status hstatus
  obtain hdue | hexpired | hmissing | ⟨-, hfinished, -⟩ := hwhy
  · have hage := age_of_mem_dueRows hs.keys hr hpending hdue
    unfold pendingAge at hage hyoung
    rw [hevolves.startAt, hevolves.runStartedAt] at hyoung
    omega
  · have hcur := hevolves.expired hexpired
    rw [hlive] at hcur
    cases hcur
  · unfold Missing at hmissing ⊢
    rwa [← hid]
  · exact absurd hpending hfinished

section Drop

variable {todo : List ListedStore} {refs left : List Ref} {rows : List CheckpointSweepRow} {calls : List GitCall}
variable {stage : SlotStage}

theorem kept_drop (h : InSlot c w sw s todo) (hrows : ∀ r ∈ rows, r ∈ s.mine)
    (hrefs : ∀ ref ∈ refs, ∀ r ∈ s.mine, ref ∈ refsOf r → r ∈ rows)
    (hleft : ∀ r ∈ rows, r.objectsExpiredAt = none → ∀ ref ∈ refsOf r, ref ∈ w.refs s.store.key → ref ∉ refs →
      r.runId ∈ dueRows s.rows sw.time)
    (hcovered : Covered (w.without s refs) sw.time { s with left })
    (hstage : ∀ w' ids, Covered w' sw.time { s with left } →
      StageSound c w' sw.time ids { s with left, calls, stage }) :
    Kept c (((w.without s refs).expire sw rows).goes (.slot { s with left, calls, stage } todo)) := by
  have hch : Changes w (((w.without s refs).expire sw rows).goes (.slot { s with left, calls, stage } todo)) :=
    changes_modify (runId_expireRow _ _) rfl (evolves_expireRow _ _)
  have hnow : ∀ cur ∈ (w.expireIds (rows.map CheckpointSweepRow.runId)).rows,
      cur.runId ∈ rows.map CheckpointSweepRow.runId → cur.objectsExpiredAt.isSome := fun _ => isSome_of_mem_expireIds
  have hused : ∀ id ∈ rows.map CheckpointSweepRow.runId, id ∈ w.used := by
    intro id hid
    obtain ⟨r, hr, rfl⟩ := List.mem_map.mp hid
    exact h.sound.used r (mem_rows_of_mem_mine (hrows r hr))
  constructor
  · intro r hr
    obtain ⟨cur, hcur, hid, -⟩ := hch r hr
    rw [← hid]
    exact h.kept.keys cur hcur
  · exact hch.distinct h.kept.distinct
  · intro id hid
    obtain hid | hid := List.mem_append.mp hid
    · exact ⟨(h.kept.dropped id hid).1, hch.moves.expired (h.kept.dropped id hid).1 (h.kept.dropped id hid).2⟩
    · obtain ⟨r, hr, rfl, ref, href, hmem⟩ := mem_runsOf hid
      obtain ⟨hmem, hdel⟩ := List.mem_filter.mp hmem
      have hmine := h.sound.mine r hr ref href hmem
      have hin := List.mem_map_of_mem (f := CheckpointSweepRow.runId)
        (hrefs ref (mem_deletable (of_decide_eq_true hdel)) r hmine href)
      exact ⟨hused _ hin, fun cur hcur hcurid => hnow cur hcur (hcurid ▸ hin)⟩
  · intro sw' hsw' id hid
    obtain rfl := Option.some.inj hsw'
    obtain hid | hid := List.mem_append.mp hid
    · exact ⟨(h.kept.expired sw h.now id hid).1,
        hch.moves.expired (h.kept.expired sw h.now id hid).1 (h.kept.expired sw h.now id hid).2⟩
    · have hin := mem_liveOf hid
      exact ⟨hused id hin, fun cur hcur hcurid => hnow cur hcur (hcurid ▸ hin)⟩
  · intro sw' s' todo' hsw' hstage'
    obtain rfl := Option.some.inj hsw'
    cases hstage'
    have hbase : SlotSound c (((w.without s refs).expire sw rows).goes (.slot { s with left, calls, stage } todo))
        sw.time sw.expired s := h.sound.mono h.sound.held (fun _ => id) hch.moves fun ref hmem => (mem_refs_without hmem).1
    refine ⟨hbase.held, hbase.keys, hbase.used, hbase.distinct, hbase.evolves, hbase.repo, hbase.mine, ?_,
      hstage _ _ hcovered⟩
    intro r hr hnone hin ref href hmem
    obtain hin | hin := List.mem_append.mp hin
    · exact hbase.fresh r hr hnone hin ref href hmem
    · obtain ⟨q, hq, hqid⟩ := List.mem_map.mp (mem_liveOf hin)
      obtain rfl := List.inj_on_of_nodup_map h.sound.keys (mem_rows_of_mem_mine (hrows q hq))
        (mem_rows_of_mem_mine hr) hqid
      obtain ⟨hold, hkept⟩ := mem_refs_without hmem
      exact hleft q hq hnone ref href hold fun hdel => hkept rfl (mem_deletable_of_mem_refsOf hdel href)
  · intro sw' todo' hsw' hstage'
    obtain rfl := Option.some.inj hsw'
    cases hstage'

variable {after : SweepStage}

theorem lawful_drop (h : InSlot c w sw s todo) (hrows : ∀ r ∈ rows, r ∈ s.mine)
    (hrefs : ∀ ref ∈ refs, ∀ r ∈ s.mine, ref ∈ refsOf r → r ∈ rows)
    (hwhy : ∀ r ∈ rows, MayDelete c sw.time s (((w.without s refs).expire sw rows).goes after) r) :
    Lawful c w (((w.without s refs).expire sw rows).goes after) where
  refs key ref hmem hgone := by
    obtain ⟨rfl, hdel⟩ := of_mem_of_notMem_without hmem hgone
    refine ⟨sw, s, h.now, h.slot?_eq, rfl, .inr fun r hr href => hwhy r ?_⟩
    exact hrefs ref (mem_deletable hdel) r (h.sound.mine r hr ref href hmem) href
  whole key hsome hnone := by
    change Function.update w.stores s.store.key _ key = none at hnone
    by_cases hkey : key = s.store.key
    · rw [hkey, Function.update_self, Option.map_eq_none_iff] at hnone
      rw [hkey, hnone] at hsome
      cases hsome
    · rw [Function.update_of_ne hkey] at hnone
      rw [hnone] at hsome
      cases hsome
  pending cur hcur hstatus hlive cur' hcur' hid hexpired := by
    refine ⟨sw, h.now, fun hyoung => .inr ⟨s, h.slot?_eq, .inl ?_⟩⟩
    have hin := mem_of_expired hcur hlive hcur' hid hexpired
    obtain ⟨r, hr, hevolves, hrid⟩ := h.sound.exists_row hrows hcur hin
    exact missing_of_mayDelete h.sound (mem_rows_of_mem_mine (hrows r hr)) (hwhy r hr) hevolves hrid hstatus hlive hyoung

/-! ### The three passes -/

theorem steps_gone (h : InSlot c w sw s todo) {gone : List Ref} {expiring : List CheckpointSweepRow}
    (hcovered : Covered w sw.time s) (hgone : ∀ ref ∈ gone, ∀ r ∈ s.mine, ref ∈ refsOf r → r ∈ expiring)
    (hexpiring : ∀ r ∈ expiring, r ∈ s.mine ∧ (r.runId ∈ dueRows s.rows sw.time ∨ r.objectsExpiredAt.isSome)) :
    Steps c w (((w.without s gone).expire sw expiring).goes
      (.slot { s with left := s.left, calls, stage := .collecting .first 0 } todo)) := by
  have hrows : ∀ r ∈ expiring, r ∈ s.mine := fun r hr => (hexpiring r hr).1
  refine ⟨kept_drop h hrows hgone (fun r hr hnone _ _ _ _ => ?_)
    (hcovered.mono fun ref hmem => (mem_refs_without hmem).1) fun _ _ => id,
    lawful_drop h hrows hgone fun r hr => (hexpiring r hr).2.imp_right .inl⟩
  refine (hexpiring r hr).2.resolve_right fun hexpired => ?_
  rw [hnone] at hexpired
  cases hexpired

theorem SlotSound.mem_of_refsLeft (hs : SlotSound c w time ids s) (hrows : ∀ r ∈ rows, r ∈ s.mine) :
    ∀ ref ∈ s.refsLeft rows, ∀ r ∈ s.mine, ref ∈ refsOf r → r ∈ rows := by
  intro ref hmem r hr href
  obtain ⟨q, hq, hqref⟩ := List.mem_flatMap.mp (List.mem_filter.mp hmem).1
  have heq := hs.eq_of_ref (mem_rows_of_mem_mine (hrows q hq)) (mem_rows_of_mem_mine hr) hqref href
  exact heq ▸ hq

variable {ref : Ref}

theorem mem_refsLeft (hr : r ∈ rows) (href : ref ∈ refsOf r) (hleft : ref ∈ s.left) : ref ∈ s.refsLeft rows :=
  List.mem_filter.mpr ⟨List.mem_flatMap.mpr ⟨r, hr, href⟩, decide_eq_true hleft⟩

theorem Covered.due (hcovered : Covered w time s) (hrows : ∀ r ∈ rows, r ∈ s.mine) (hr : r ∈ rows)
    (hnone : r.objectsExpiredAt = none) (href : ref ∈ refsOf r) (hmem : ref ∈ w.refs s.store.key)
    (hkept : ref ∉ s.refsLeft rows) : r.runId ∈ dueRows s.rows time := by
  obtain hleft | hdue | hexpired := hcovered r (hrows r hr) ref href hmem
  · exact absurd (mem_refsLeft hr href hleft) hkept
  · exact hdue
  · rw [hnone] at hexpired
    cases hexpired

theorem Covered.without (hcovered : Covered w time s) {refs : List Ref} :
    Covered (w.without s refs) time { s with left := s.left.filter (· ∉ refs) } := by
  intro r hr ref href hmem
  obtain ⟨hmem, hkept⟩ := mem_refs_without hmem
  refine (hcovered r hr ref href hmem).imp_left fun hleft =>
    List.mem_filter.mpr ⟨hleft, decide_eq_true fun hdel => ?_⟩
  exact hkept rfl (mem_deletable_of_mem_refsOf hdel href)

theorem steps_left (h : InSlot c w sw s todo) (hrows : ∀ r ∈ rows, r ∈ s.mine) (hcovered : Covered w sw.time s)
    (hstage : ∀ w' ids left, Covered w' sw.time { s with left } →
      StageSound c w' sw.time ids { s with left, calls, stage })
    (hwhy : ∀ r ∈ rows, MayDelete c sw.time s (((w.without s (s.refsLeft rows)).expire sw rows).goes
      (.slot { s with left := s.left.filter (· ∉ s.refsLeft rows), calls, stage } todo)) r) :
    Steps c w (((w.without s (s.refsLeft rows)).expire sw rows).goes
      (.slot { s with left := s.left.filter (· ∉ s.refsLeft rows), calls, stage } todo)) :=
  ⟨kept_drop h hrows (h.sound.mem_of_refsLeft hrows)
      (fun _ hr hnone _ href hmem hkept => hcovered.due hrows hr hnone href hmem hkept) hcovered.without
      fun w' ids => hstage w' ids _,
    lawful_drop h hrows (h.sound.mem_of_refsLeft hrows) hwhy⟩

variable {expired : List String}

theorem mem_live : r ∈ s.live expired ↔
    r ∈ s.mine ∧ r.objectsExpiredAt = none ∧ r.runId ∉ expired ∧ r.status ≠ .pending := by
  unfold SweepSlot.live
  rw [List.mem_insertionSort, List.mem_filter]
  simp [and_assoc]

theorem mem_live_of_mem_batch (h : r ∈ s.batch expired) : r ∈ s.live expired := List.mem_of_mem_take h

theorem mem_batch_of_older {q : CheckpointSweepRow} (hr : r ∈ s.batch expired) (hq : q ∈ s.live expired)
    (hold : q.runStartedAt < r.runStartedAt) : q ∈ s.batch expired := by
  have hsorted : (s.live expired).Pairwise SweepSlot.olderFirst := List.pairwise_insertionSort _ _
  unfold SweepSlot.batch at hr ⊢
  rw [← List.take_append_drop (max 1 (((s.live expired).length + 3) / 4)) (s.live expired)] at hsorted hq
  obtain hq | hq := List.mem_append.mp hq
  · exact hq
  · have hle : r.runStartedAt ≤ q.runStartedAt := (List.pairwise_append.mp hsorted).2.2 r hr q hq
    omega

theorem mayDelete_batch (h : InSlot c w sw s todo) (hcovered : Covered w sw.time s) (hover : OverCap c s)
    (hr : r ∈ s.batch sw.expired) :
    MayDelete c sw.time s (((w.without s (s.refsLeft (s.batch sw.expired))).expire sw (s.batch sw.expired)).goes
      after)
      r := by
  have hbatch : ∀ q ∈ s.batch sw.expired, q ∈ s.mine := fun q hq => (mem_live.mp (mem_live_of_mem_batch hq)).1
  refine .inr (.inr (.inr ⟨hover, (mem_live.mp (mem_live_of_mem_batch hr)).2.2.2, ?_⟩))
  intro q hq hlive hfinished hold
  by_cases hin : q.runId ∈ sw.expired
  · constructor
    · exact (moves_expireIds w rfl).expired (h.kept.expired sw h.now _ hin).1 (h.kept.expired sw h.now _ hin).2
    · exact fun ref href hmem => h.sound.fresh q hq hlive hin ref href (mem_refs_without hmem).1
  · have hqbatch := mem_batch_of_older hr (mem_live.mpr ⟨hq, hlive, hin, hfinished⟩) hold
    constructor
    · exact fun cur hcur hid => isSome_of_mem_expireIds hcur (hid ▸ List.mem_map_of_mem hqbatch)
    · intro ref href hmem
      obtain ⟨hmem, hkept⟩ := mem_refs_without hmem
      exact hcovered.due hbatch hqbatch hlive href hmem fun hdel => hkept rfl (mem_deletable_of_mem_refsOf hdel href)

end Drop

/-! ### Whole stores and the last loop -/

theorem kept_expire (h : Kept c w) (hsw : w.sweep = some sw) (hused : ∀ r ∈ rows, r.runId ∈ w.used)
    {stage : SweepStage} (hslot : ∀ s todo, stage ≠ .slot s todo)
    (hroots : ∀ todo, stage = .roots todo → ∀ r ∈ todo, r.runId ∈ w.used ∧ ∀ cur ∈ w.rows.rows, cur.runId =
      r.runId → Evolves r cur) :
    Kept c ((w.expire sw rows).goes stage) := by
  have hch : Changes w ((w.expire sw rows).goes stage) :=
    changes_modify (runId_expireRow _ _) rfl (evolves_expireRow _ _)
  constructor
  · intro r hr
    obtain ⟨cur, hcur, hid, -⟩ := hch r hr
    rw [← hid]
    exact h.keys cur hcur
  · exact hch.distinct h.distinct
  · exact fun id hid => ⟨(h.dropped id hid).1, hch.moves.expired (h.dropped id hid).1 (h.dropped id hid).2⟩
  · intro sw' hsw' id hid
    obtain rfl := Option.some.inj hsw'
    obtain hid | hid := List.mem_append.mp hid
    · exact ⟨(h.expired sw hsw id hid).1, hch.moves.expired (h.expired sw hsw id hid).1 (h.expired sw hsw id hid).2⟩
    · have hin := mem_liveOf hid
      obtain ⟨r, hr, rfl⟩ := List.mem_map.mp hin
      exact ⟨hused r hr, fun cur hcur hcurid => isSome_of_mem_expireIds hcur (hcurid ▸ hin)⟩
  · intro sw' s todo hsw' hstage
    obtain rfl := Option.some.inj hsw'
    exact absurd hstage (hslot s todo)
  · intro sw' todo hsw' hstage r hr
    obtain rfl := Option.some.inj hsw'
    obtain ⟨hid, hevolves⟩ := hroots todo hstage r hr
    refine ⟨hid, fun cur hcur hcurid => ?_⟩
    obtain ⟨b, hb, hbid, hb'⟩ := hch cur hcur
    exact (hevolves b hb (hbid.trans hcurid)).trans hb'

theorem kept_removeStore (h : Kept c w) (hslot : ∀ sw s todo, w.sweep = some sw → sw.stage ≠ .slot s todo)
    (hdropped : ∀ id ∈ runsOf s.rows (w.refs s.store.key), id ∈ w.used ∧
      ∀ r ∈ w.rows.rows, r.runId = id → r.objectsExpiredAt.isSome) : Kept c (w.removeStore s) := { h with
  dropped := fun id hid => (List.mem_append.mp hid).elim (h.dropped id) (hdropped id)
  slot := fun sw s' todo hsw hstage => absurd hstage (hslot sw s' todo hsw) }

theorem lawful_removed (h : InSlot c w sw s todo)
    (hwhole : s.there = false ∨ ∀ r ∈ s.rows, r.repoRoot ≠ "" → s.repo ≠ some r.repoRoot)
    (hstores : w'.stores = Function.update w.stores s.store.key none)
    (hpending : ∀ cur ∈ w.rows.rows, cur.objectsExpiredAt = none → ∀ cur' ∈ w'.rows.rows, cur'.runId =
      cur.runId → cur'.objectsExpiredAt.isSome → s.there = false ∧ s.repo = some cur.repoRoot) :
    Lawful c w w' where
  refs key ref hmem hgone := by
    have hkey : key = s.store.key := by
      by_contra hne
      unfold refs at hmem hgone
      rw [hstores, Function.update_of_ne hne] at hgone
      exact hgone hmem
    refine ⟨sw, s, h.now, h.slot?_eq, hkey.symm, .inl ?_⟩
    rw [hstores, hkey, Function.update_self]
  whole key hsome hnone := by
    have hkey : key = s.store.key := by
      by_contra hne
      rw [hstores, Function.update_of_ne hne] at hnone
      rw [hnone] at hsome
      cases hsome
    exact ⟨s, h.slot?_eq, hkey.symm, hwhole⟩
  pending cur hcur _ hlive cur' hcur' hid hexpired :=
    ⟨sw, h.now, fun _ => .inr ⟨s, h.slot?_eq, .inr (hpending cur hcur hlive cur' hcur' hid hexpired)⟩⟩

theorem SlotSound.repoRoot_of_mem_mine (hs : SlotSound c w time ids s) (hr : r ∈ s.mine) :
    r.repoRoot ≠ "" ∧ s.repo = some r.repoRoot := by
  obtain ⟨root, hroot, hrepo, -⟩ := hs.repo
  unfold SweepSlot.mine at hr
  rw [hroot] at hr
  obtain ⟨hne, heq⟩ := of_decide_eq_true (List.mem_filter.mp hr).2
  exact ⟨hne, by rw [hrepo, heq]⟩

theorem steps_removed (h : InSlot c w sw s todo) (hwhy : s.rootGone ∨ s.mine = []) :
    Steps c w ((if s.rootGone then (w.removeStore s).expire sw s.mine else w.removeStore s).goes (.stores todo)) := by
  have hused : ∀ r ∈ s.mine, r.runId ∈ w.used := fun r hr => h.sound.used r (mem_rows_of_mem_mine hr)
  have hruns : ∀ id ∈ runsOf s.rows (w.refs s.store.key), ∃ r ∈ s.mine, r.runId = id := by
    intro id hid
    obtain ⟨r, hr, hrid, ref, href, hmem⟩ := mem_runsOf hid
    exact ⟨r, h.sound.mine r hr ref href hmem, hrid⟩
  obtain ⟨root, hroot, hrepo, hthere⟩ := h.sound.repo
  split_ifs with hgone
  · have hexpire : Kept c ((w.expire sw s.mine).goes (.stores todo)) :=
      kept_expire h.kept h.now hused (fun _ _ heq => by cases heq) fun _ heq => by cases heq
    have hthere : s.there = false := by simpa [hgone] using hthere
    refine ⟨kept_removeStore hexpire (fun sw' s' todo' hsw' hstage' => ?_) fun id hid => ?_,
      lawful_removed h (.inl hthere) rfl fun cur hcur hlive cur' hcur' hid hexpired => ⟨hthere, ?_⟩⟩
    · obtain rfl := Option.some.inj hsw'
      cases hstage'
    · obtain ⟨r, hr, rfl⟩ := hruns id hid
      exact ⟨hused r hr, fun cur hcur hid => isSome_of_mem_expireIds hcur (hid ▸ List.mem_map_of_mem hr)⟩
    · have hin := mem_of_expired hcur hlive hcur' hid hexpired
      obtain ⟨r, hr, hevolves, -⟩ := h.sound.exists_row (fun _ => id) hcur hin
      obtain ⟨hne, heq⟩ := h.sound.repoRoot_of_mem_mine hr
      rw [hevolves.repoRoot hne]
      exact heq
  · have hmine := hwhy.resolve_left hgone
    have hgoes : Kept c (w.goes (.stores todo)) :=
      h.kept.goes h.now (fun _ _ heq => by cases heq) fun _ heq => by cases heq
    refine ⟨kept_removeStore hgoes (fun sw' s' todo' hsw' hstage' => ?_) fun id hid => ?_,
      lawful_removed h (.inr fun r hr hne heq => ?_) rfl fun cur hcur hlive cur' hcur' hid hexpired => ?_⟩
    · rw [sweep_goes h.now] at hsw'
      obtain rfl := Option.some.inj hsw'
      cases hstage'
    · obtain ⟨r, hr, -⟩ := hruns id hid
      rw [hmine] at hr
      cases hr
    · have hin : r ∈ s.mine := by
        unfold SweepSlot.mine
        rw [hroot]
        exact List.mem_filter.mpr ⟨hr, decide_eq_true ⟨hne, (Option.some.inj (hrepo.symm.trans heq)).symm⟩⟩
      rw [hmine] at hin
      cases hin
    · obtain rfl := w.rows.eq_of_key_eq hcur' hcur hid
      rw [hlive] at hexpired
      cases hexpired

theorem steps_root (h : Kept c w) (hsw : w.sweep = some sw) {todo : List CheckpointSweepRow}
    (hstage : sw.stage = .roots (r :: todo)) :
    Steps c w ((if asksRoot sw.expired r && !w.present r.repoRoot then w.expire sw [r] else w).goes
      (.roots todo)) := by
  have hroots : ∀ todo', SweepStage.roots todo = .roots todo' → ∀ q ∈ todo', q.runId ∈ w.used ∧
      ∀ cur ∈ w.rows.rows, cur.runId = q.runId → Evolves q cur := by
    intro todo' heq q hq
    cases heq
    exact h.roots sw _ hsw hstage q (List.mem_cons_of_mem r hq)
  obtain ⟨hused, hevolves⟩ := h.roots sw _ hsw hstage r List.mem_cons_self
  split_ifs with hgone
  · obtain ⟨hasks, habsent⟩ := Bool.and_eq_true_iff.mp hgone
    refine ⟨kept_expire h hsw (fun q hq => ?_) (fun _ _ heq => by cases heq) hroots, fun key ref hmem hgone =>
      absurd hmem hgone, fun key hsome hnone => ?_, fun cur hcur hstatus hlive cur' hcur' hid hexpired => ?_⟩
    · obtain rfl := List.mem_singleton.mp hq
      exact hused
    · rw [show w.stores key = none from hnone] at hsome
      cases hsome
    · have hin := mem_of_expired hcur hlive hcur' hid hexpired
      have heq := hevolves cur hcur (List.mem_singleton.mp hin)
      refine ⟨sw, hsw, fun _ => .inl ?_⟩
      unfold asksRoot at hasks
      simp only [Bool.and_eq_true, decide_eq_true_eq] at hasks
      rw [heq.repoRoot hasks.1.1.2]
      simpa using habsent
  · exact ⟨h.goes hsw (fun _ _ heq => by cases heq) hroots, lawful_of_same rfl rfl⟩

/-! ### In a slot -/

theorem SlotSound.byRef_eq (hs : SlotSound c w time ids s) (hr : r ∈ s.mine) (href : ref ∈ refsOf r) :
    s.byRef ref = some r := by
  unfold SweepSlot.byRef
  cases hfind : s.mine.reverse.find? (ref ∈ refsOf ·) with
  | none =>
    have hnone := List.find?_eq_none.mp hfind r (List.mem_reverse.mpr hr)
    exact absurd (decide_eq_true href) hnone
  | some q =>
    have hq := List.mem_reverse.mp (List.mem_of_find?_eq_some hfind)
    have hqref := List.find?_some hfind
    rw [decide_eq_true_iff] at hqref
    rw [hs.eq_of_ref (mem_rows_of_mem_mine hq) (mem_rows_of_mem_mine hr) hqref href]

theorem mem_mine_of_byRef (h : s.byRef ref = some r) : r ∈ s.mine :=
  List.mem_reverse.mp (List.mem_of_find?_eq_some h)

theorem isGone_of_byRef (h : s.byRef ref = some r) :
    s.isGone time ref ↔ r.runId ∈ dueRows s.rows time ∨ r.objectsExpiredAt.isSome := by
  unfold SweepSlot.isGone
  rw [h, Bool.or_eq_true, decide_eq_true_eq, or_comm]

section

variable (h : InSlot c w sw s todo)
include h

theorem steps_listed (ok : Bool) (hstage : s.stage = .listing) (hstep : w.stepSlot c sw s todo (.listed ok) = some w') :
    Steps c w w' := by
  simp only [stepSlot, hstage] at hstep
  have hcovered : Covered w sw.time { s with
      left := (w.refs s.store.key).filter (· ∉ (w.refs s.store.key).filter (s.isGone sw.time)) } := by
    intro r hr ref href hmem
    by_cases hgone : ref ∈ (w.refs s.store.key).filter (s.isGone sw.time)
    · exact .inr ((isGone_of_byRef (h.sound.byRef_eq hr href)).mp (List.mem_filter.mp hgone).2)
    · exact .inl (List.mem_filter.mpr ⟨hmem, decide_eq_true hgone⟩)
  split_ifs at hstep <;> obtain rfl := Option.some.inj hstep
  · exact steps_slot h.kept h.now (h.sound.goes hcovered)
  · refine steps_slot h.kept h.now (h.sound.goes ⟨hcovered, fun ref hmem r hr href => ?_, fun r hr => ?_⟩)
    · exact List.mem_filterMap.mpr ⟨ref, hmem, h.sound.byRef_eq hr href⟩
    · obtain ⟨ref, hmem, hbyRef⟩ := List.mem_filterMap.mp hr
      exact ⟨mem_mine_of_byRef hbyRef, (isGone_of_byRef hbyRef).mp (List.mem_filter.mp hmem).2⟩
  · exact steps_stores h.kept h.now todo

theorem steps_deleted (ok : Bool) (hstep : w.stepSlot c sw s todo (.deleted ok) = some w') : Steps c w w' := by
  have hsound := h.sound.stage
  unfold StageSound at hsound
  simp only [stepSlot] at hstep
  split at hstep
  · rename_i gone expiring hstage
    simp only [hstage] at hsound
    split_ifs at hstep <;> obtain rfl := Option.some.inj hstep
    · exact steps_gone h hsound.1 hsound.2.1 hsound.2.2
    · exact steps_slot h.kept h.now (h.sound.goes hsound.1)
  · rename_i broken refs round hstage
    simp only [hstage] at hsound
    obtain ⟨hcovered, rfl, hbroken⟩ := hsound
    split_ifs at hstep <;> obtain rfl := Option.some.inj hstep
    · exact steps_left h (fun r hr => (hbroken r hr).1) hcovered (fun _ _ _ => id) fun r hr =>
        .inr (.inr (.inl (hbroken r hr).2))
    · exact steps_collected h hcovered
  · rename_i round batch refs hstage
    simp only [hstage] at hsound
    obtain ⟨hcovered, rfl, rfl, hover⟩ := hsound
    split_ifs at hstep <;> obtain rfl := Option.some.inj hstep
    · exact steps_left h (fun r hr => (mem_live.mp (mem_live_of_mem_batch hr)).1) hcovered
        (fun _ _ _ => id) fun r hr => mayDelete_batch h hcovered hover hr
    · exact steps_stores h.kept h.now todo
  · cases hstep

theorem steps_bytes (answer : Option Nat) (hcurrent : w.Current c (.bytes answer))
    (hstep : w.stepSlot c sw s todo (.bytes answer) = some w') :
    Steps c w w' := by
  have hsound := h.sound.stage
  unfold StageSound at hsound
  simp only [Current, h.slot?_eq] at hcurrent
  simp only [stepSlot] at hstep
  split at hstep
  · rename_i round hstage
    simp only [hstage] at hsound
    split_ifs at hstep with hover hempty <;> obtain rfl := Option.some.inj hstep
    · exact steps_stores h.kept h.now todo
    · obtain ⟨b, rfl, hb⟩ := (Option.any_eq_true _ _).mp hover
      refine steps_slot h.kept h.now (h.sound.goes ⟨hsound, rfl, rfl, _, b, rfl, of_decide_eq_true hb, hcurrent hover⟩)
    · exact steps_stores h.kept h.now todo
  · cases hstep

theorem steps_of_stepSlot (hcurrent : w.Current c a) (hstep : w.stepSlot c sw s todo a = some w') : Steps c w w' := by
  have hsound := h.sound.stage
  unfold StageSound at hsound
  cases a with
  | removed =>
    simp only [stepSlot] at hstep
    split at hstep
    · rename_i hstage
      simp only [hstage] at hsound
      obtain rfl := Option.some.inj hstep
      exact steps_removed h hsound
    · cases hstep
  | listed ok =>
    cases hstage : s.stage
    case listing => exact steps_listed h ok hstage hstep
    all_goals
      simp only [stepSlot, hstage] at hstep
      cases hstep
  | deleted ok => exact steps_deleted h ok hstep
  | sized bytes packs =>
    simp only [stepSlot] at hstep
    split at hstep
    · rename_i hstage
      simp only [hstage] at hsound
      split_ifs at hstep <;> obtain rfl := Option.some.inj hstep <;> exact steps_slot h.kept h.now (h.sound.goes hsound)
    · cases hstep
  | gc ok =>
    simp only [stepSlot] at hstep
    split at hstep
    · rename_i round hstage
      simp only [hstage] at hsound
      split_ifs at hstep <;> obtain rfl := Option.some.inj hstep
      · exact steps_collected h hsound
      · exact steps_probe h hsound (fun r hr => (List.mem_filter.mp hr).1) fun r hr => by cases hr
    · rename_i round hstage
      simp only [hstage] at hsound
      obtain rfl := Option.some.inj hstep
      exact steps_collected h hsound
    · cases hstep
  | probed missing =>
    simp only [stepSlot] at hstep
    split at hstep
    · rename_i r rows broken round hstage
      simp only [hstage] at hsound
      obtain ⟨hcovered, hrows, hbroken⟩ := hsound
      obtain rfl := Option.some.inj hstep
      have hkept : ∀ q ∈ broken, q ∈ s.mine ∧ Missing (s.answered (.objectsMissing r.runId missing)) q :=
        fun q hq => ⟨(hbroken q hq).1, List.mem_append_left _ (hbroken q hq).2⟩
      refine steps_probe h hcovered (fun q hq => hrows q (List.mem_cons_of_mem r hq)) fun q hq => ?_
      split_ifs at hq with hmissing
      · obtain hq | hq := List.mem_append.mp hq
        · exact hkept q hq
        · obtain rfl := List.mem_singleton.mp hq
          exact ⟨hrows q List.mem_cons_self, List.mem_append_right _ (by rw [hmissing]; exact List.mem_cons_self)⟩
      · exact hkept q hq
    · cases hstep
  | bytes answer => exact steps_bytes h answer hcurrent hstep
  | _ => cases hstep

end

/-! ### Every event -/

section

variable (h : Kept c w)
include h

theorem steps_enter (hsw : w.sweep = some sw) {l : ListedStore} {rootGone : Bool}
    (hstage : sw.stage = .waiting l rootGone todo) (hcurrent : w.Current c .enter) (hfree : w.held l.key = false) :
    Steps c w (w.enter l rootGone todo) := by
  obtain ⟨time, expired, stage⟩ := sw
  obtain rfl : stage = _ := hstage
  simp only [Current, hsw] at hcurrent
  obtain ⟨hreadable, hmeta, hgone, hnames⟩ := hcurrent
  obtain ⟨root, hroot⟩ := Option.isSome_iff_exists.mp hreadable
  have hnew : ∀ r ∈ w.rows.rows, r.objectsExpiredAt = none → r.runId ∉ expired := by
    intro r hr hnone hin
    have hexpired := (h.expired _ hsw r.runId hin).2 r hr rfl
    rw [hnone] at hexpired
    cases hexpired
  unfold enter
  refine steps_slot h hsw ?_
  dsimp only
  split_ifs with hwhy
  all_goals
    refine ⟨hfree, w.rows.nodup, h.keys, h.distinct, fun r hr cur hcur hid => ?_, ⟨root, hroot, ?_, ?_⟩,
      fun r hr ref href hmem => ?_, fun r hr hnone hin => absurd hin (hnew r (mem_rows_of_mem_mine hr) hnone), ?_⟩
    · obtain rfl := w.rows.eq_of_key_eq hcur hr hid
      exact .refl cur
    · exact hmeta.trans hroot
    · rw [hgone, hmeta]
    · obtain ⟨hne, hname⟩ := hnames r hr ref href hmem
      unfold SweepSlot.mine
      simp only [hname]
      exact List.mem_filter.mpr ⟨hr, decide_eq_true ⟨hne, rfl⟩⟩
  · exact hwhy.imp_right List.isEmpty_iff.mp
  · exact fun r hr hnone => hnew r (mem_rows_of_mem_mine hr) hnone

theorem steps_of_stepSweep (hsw : w.sweep = some sw) (hcurrent : w.Current c a)
    (hstep : w.stepSweep c sw a = some w') : Steps c w w' := by
  unfold stepSweep at hstep
  split at hstep
  case h_1 keys _ =>
    split_ifs at hstep
    obtain rfl := Option.some.inj hstep
    exact steps_goes h hsw (fun _ _ heq => by cases heq) fun _ heq => by cases heq
  case h_2 =>
    obtain rfl := Option.some.inj hstep
    exact steps_goes h hsw (fun _ _ heq => by cases heq) fun _ heq => by cases heq
  case h_3 =>
    obtain rfl := Option.some.inj hstep
    exact steps_stores h hsw _
  case h_4 =>
    obtain rfl := Option.some.inj hstep
    exact steps_goes h hsw (fun _ _ heq => by cases heq) fun _ heq => by cases heq
  case h_5 =>
    obtain rfl := Option.some.inj hstep
    refine ⟨h.goes hsw (fun _ _ heq => by cases heq) fun todo heq r hr => ?_, lawful_of_same rfl rfl⟩
    cases heq
    refine ⟨h.keys r hr, fun cur hcur hid => ?_⟩
    obtain rfl := w.rows.eq_of_key_eq hcur hr hid
    exact .refl cur
  case h_6 l rootGone todo hstage =>
    split_ifs at hstep with hheld
    obtain rfl := Option.some.inj hstep
    exact steps_enter h hsw hstage hcurrent (by simpa using hheld)
  case h_7 r todo hstage =>
    obtain rfl := Option.some.inj hstep
    exact steps_root h hsw hstage
  case h_8 =>
    obtain rfl := Option.some.inj hstep
    refine ⟨⟨h.keys, h.distinct, h.dropped, ?_, ?_, ?_⟩, lawful_of_same rfl rfl⟩
    · exact fun _ hnone => by cases hnone
    · exact fun _ _ _ hnone => by cases hnone
    · exact fun _ _ hnone => by cases hnone
  case h_9 s todo hstage => exact steps_of_stepSlot ⟨h, hsw, hstage⟩ hcurrent hstep
  case h_10 => cases hstep

theorem steps_of_step (ha : a.bySweep) (hcurrent : w.Current c a) (hstep : w.step c a = some w') : Steps c w w' := by
  cases a with
  | sweep time =>
    simp only [step] at hstep
    split at hstep
    · obtain rfl := Option.some.inj hstep
      refine ⟨⟨h.keys, h.distinct, h.dropped, ?_, ?_, ?_⟩, lawful_of_same rfl rfl⟩
      · intro sw hsw id hid
        obtain rfl := Option.some.inj hsw
        cases hid
      · intro sw s todo hsw hstage
        obtain rfl := Option.some.inj hsw
        cases hstage
      · intro sw todo hsw hstage
        obtain rfl := Option.some.inj hsw
        cases hstage
    · cases hstep
  | tick _ | appears _ _ | take _ | release _ | truncate _ | describe _ _ | snapshot _ _ | record _ | finish _ _ _ _
  | markExpired _ | archive _ _ | drop _ => cases ha
  | _ =>
    obtain ⟨sw, hsw, hstep⟩ := Option.bind_eq_some_iff.mp hstep
    exact steps_of_stepSweep h hsw hcurrent hstep

theorem kept_step (hcurrent : w.Current c a) (hstep : w.step c a = some w') : Kept c w' := by
  cases ha : a.bySweep
  · exact kept_others h ha hstep
  · exact (steps_of_step h ha hcurrent hstep).1

end

/-! ### Over every run -/

/-- Any rows and stores, before a sweep: runs have one row each, and two rows of a thread have two ordinals. -/
structure Fresh (w : SweepWorld) : Prop where
  used : ∀ r ∈ w.rows.rows, r.runId ∈ w.used
  distinct : DistinctRefs w.rows.rows
  sweep : w.sweep = none
  dropped : w.dropped = []

theorem kept_of_fresh (h : w.Fresh) : Kept c w where
  keys := h.used
  distinct := h.distinct
  dropped id hid := by
    rw [h.dropped] at hid
    cases hid
  expired sw hsw := by
    rw [h.sweep] at hsw
    cases hsw
  slot sw s todo hsw := by
    rw [h.sweep] at hsw
    cases hsw
  roots sw todo hsw := by
    rw [h.sweep] at hsw
    cases hsw

/-- What `dueRows` keeps; and in every run in which what the sweep read of a store still holds when it gets the slot,
each step of the sweep deletes and expires what retention allows, and a row of which it deleted a ref is expired in
every state. -/
theorem sweep_lawful (c : SweepConfig) :
    (∀ (rows : Table CheckpointSweepRow.runId) (time : Int), ∀ r ∈ rows.rows, r.status ≠ .pending →
      (newerRows rows.rows r).length < CHECKPOINT_KEEP_RUNS → isOld time r = false →
      r.runId ∉ dueRows rows.rows time) ∧
    ∀ start w : SweepWorld, start.Fresh → Runs.Run (step c) (Current c) start w →
      (∀ runId ∈ w.dropped, ∀ r ∈ w.rows.rows, r.runId = runId → r.objectsExpiredAt.isSome) ∧
      ∀ a w', a.bySweep → w.Current c a → w.step c a = some w' → Lawful c w w' := by
  refine ⟨fun rows time r hr hstatus hnewest hage => notMem_dueRows rows.nodup hr hstatus hnewest hage, ?_⟩
  intro start w hfresh hrun
  have hkept : Kept c w :=
    hrun.invariant (P := Kept c) (fun _ _ _ hw hC hstep => kept_step hw hC hstep) (kept_of_fresh hfresh)
  exact ⟨fun runId hid => (hkept.dropped runId hid).2, fun a w' ha hC hstep => (steps_of_step hkept ha hC hstep).2⟩

/-- A store with the checkpoint of one run, made at the start of the given age. -/
def oneStore (row : CheckpointSweepRow) : SweepWorld where
  rows := ⟨[row], List.nodup_singleton _⟩
  used := [row.runId]
  stores key := if key = "key" then some ⟨some "/repo", refsOf row⟩ else none
  present root := root = "/repo"

theorem fresh_oneStore (row : CheckpointSweepRow) : (oneStore row).Fresh where
  used r hr := by
    obtain rfl := List.mem_singleton.mp hr
    exact List.mem_cons_self
  distinct a ha b hb _ _ := by
    rw [List.mem_singleton.mp ha, List.mem_singleton.mp hb]
  sweep := rfl
  dropped := rfl

def readyRow : CheckpointSweepRow :=
  { runId := "run", threadId := "thread", appRunOrdinal := 1, status := .ready, repoRoot := "/repo"
    startCommit := some "a", endCommit := some "b", startAt := some 0, runStartedAt := 0 }

/-- A run's start snapshot is writing the store's meta file while the sweep lists the stores; the sweep gets the slot
after it. -/
def staleMeta : List SweepEvent :=
  [.take "key", .truncate "key", .sweep 1, .names ["key"], .readMeta, .describe "key" "/repo",
    .snapshot "key" (.run "thread" 2 .start),
    .record { runId := "next", threadId := "thread", appRunOrdinal := 2, status := .pending, repoRoot := "/repo"
              startCommit := some "c", startAt := some 1, runStartedAt := 1 },
    .release "key", .next, .next, .enter, .removed]

/-- Is there a row of which the sweep deleted a ref, and that is live? -/
def dropsLive (w : SweepWorld) : Bool :=
  w.dropped.any fun runId => w.rows.rows.any fun r => r.runId = runId && r.objectsExpiredAt.isNone

/-- Not in every run: a store whose meta file is read while it is written is removed whole, with the refs of rows that
are neither due nor expired, and its repository is there. -/
theorem sweep_drops_live : ¬ ∀ (c : SweepConfig) (start w : SweepWorld), start.Fresh →
    Runs.Run (step c) (fun _ _ => True) start w →
    (∀ runId ∈ w.dropped, ∀ r ∈ w.rows.rows, r.runId = runId → r.objectsExpiredAt.isSome) ∧
    ∀ a w', a.bySweep → w.step c a = some w' → Lawful c w w' := by
  intro hclaim
  obtain ⟨w, hrun, hw⟩ := exists_run_of_exec
    (show (exec (step {}) (fun _ _ => True) (oneStore readyRow) staleMeta).any dropsLive = true by decide +kernel)
  obtain ⟨runId, hid, hrow⟩ := List.any_eq_true.mp hw
  obtain ⟨r, hr, hlive⟩ := List.any_eq_true.mp hrow
  obtain ⟨hrid, hnone⟩ := Bool.and_eq_true_iff.mp hlive
  have hsome := (hclaim {} _ w (fresh_oneStore readyRow) hrun).1 runId hid r hr (of_decide_eq_true hrid)
  rw [← Option.not_isNone, hnone] at hsome
  cases hsome

def asked : SweepEvent → Bool
  | .enter | .bytes _ => true
  | _ => false

theorem current_of_not_asked (h : asked a = false) : w.Current c a := by
  cases a
  case enter | bytes => cases h
  all_goals trivial

/-- A sweep fifteen days later, up to the slot of the store. -/
def beforeSlot : Option SweepWorld :=
  exec (step {}) (fun _ a => asked a = false) (oneStore readyRow)
    [.sweep (15 * DAY_MS), .names ["key"], .readMeta, .next, .next]

/-- In the slot, when the sweep has deleted what is due. -/
def afterSlot : Option SweepWorld :=
  (beforeSlot.bind fun w => w.step {} .enter).bind fun w =>
    exec (step {}) (fun _ a => asked a = false) w [.listed true, .deleted true, .gc true]

/-- A run of the sweep that deletes the refs of a row that is due, and expires the row. -/
theorem sweep_lawful_due : ∃ w : SweepWorld, w.dropped = ["run"] ∧ w.refs "key" = [] ∧
    ∀ r ∈ w.rows.rows, r.runId = "run" → r.objectsExpiredAt.isSome := by
  obtain ⟨w, hw, hdropped, hrefs⟩ : ∃ w, afterSlot = some w ∧ w.dropped = ["run"] ∧ w.refs "key" = [] :=
    ⟨afterSlot.get (by decide +kernel), Option.some_get _ |>.symm, by decide +kernel, by decide +kernel⟩
  obtain ⟨w₂, hw₂, hrest⟩ := Option.bind_eq_some_iff.mp hw
  obtain ⟨w₁, hw₁, henter⟩ := Option.bind_eq_some_iff.mp hw₂
  have hreads : w₁.Current {} .enter := by
    have hget : w₁ = beforeSlot.get (by decide +kernel) := by simp [hw₁]
    rw [hget]
    show (beforeSlot.get _).Reads ⟨"key", some "/repo"⟩ false
    decide +kernel
  have hfree : ∀ (m : SweepWorld) (a : SweepEvent), asked a = false → m.Current {} a :=
    fun _ _ => current_of_not_asked
  have hrun : Runs.Run (step {}) (Current {}) (oneStore readyRow) w :=
    (Run.next ((run_of_exec hw₁).imp hfree) hreads henter).trans ((run_of_exec hrest).imp hfree)
  exact ⟨w, hdropped, hrefs, fun r hr hid =>
    ((sweep_lawful {}).2 _ w (fresh_oneStore readyRow) hrun).1 "run" (by rw [hdropped]; simp) r hr hid⟩

end Sightr.Checkpoints.SweepWorld
