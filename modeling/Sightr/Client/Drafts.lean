import Mathlib.Algebra.Order.BigOperators.Group.List
import Mathlib.Data.List.Sort
import Sightr.Lib.JsText
import Sightr.Lib.Runs
import Sightr.Lib.Table

/-!
# Composer drafts

`web2/src/lib/drafts.ts`: a thread's draft is kept in memory while the page lives, and in local storage where it is
small enough. A save writes the one and then the other, and a load takes the newer. Storage removes what it is asked
to, and takes a new entry or throws.
-/

namespace Sightr

open JsText
open Keyed (Table)

/-! ### The two tiers -/

structure DraftEntry where
  key : String
  text : List Char
  at_ : Int
  deriving DecidableEq

namespace DraftEntry

def size (e : DraftEntry) : Nat := (codeUnits e.text).length

end DraftEntry

structure Drafts where
  memory : Table DraftEntry.key := .empty
  stored : Table DraftEntry.key := .empty
  pruned : Bool := false

namespace Drafts

def PREFIX : String := "sightr:v2:draft:"

def MAX_AGE_MS : Int := 48 * 60 * 60 * 1000

def MAX_CHARS : Nat := 8 * 1024

def MEMORY_MAX_CHARS : Nat := 4 * 1024 * 1024

def keyFor (threadId : String) : String := PREFIX ++ threadId

theorem keyFor_inj {a b : String} : keyFor a = keyFor b ↔ a = b := by
  simp [keyFor]

variable (d : Drafts)

/-- Drop the expired drafts of the disk tier, once a page. -/
def prunedOnce (now : Int) : Drafts :=
  if d.pruned then d
  else { d with
    pruned := true
    stored := d.stored.filter fun e =>
      !(startsWith PREFIX.toList e.key.toList && decide (MAX_AGE_MS < now - e.at_)) }

def fitsDraftStore (text : List Char) : Bool := decide ((codeUnits text).length ≤ MAX_CHARS)

/-- The disk tier's entry, and the drafts after an expired one is removed. -/
def loadStored (threadId : String) (now : Int) : Option DraftEntry × Drafts :=
  match d.stored.find? (keyFor threadId) with
  | none => (none, d)
  | some entry =>
    if MAX_AGE_MS < now - entry.at_ then
      (none, { d with stored := d.stored.filter (·.key ≠ keyFor threadId) })
    else (some entry, d)

/-- The newer of two entries, the memory tier's where they are of one time. -/
def newer : Option DraftEntry → Option DraftEntry → Option DraftEntry
  | none, stored => stored
  | some cached, none => some cached
  | some cached, some stored => some (if cached.at_ < stored.at_ then stored else cached)

theorem newer_eq_some {cached stored : Option DraftEntry} {e : DraftEntry} (h : newer cached stored = some e) :
    cached = some e ∨ stored = some e := by
  cases cached with
  | none => exact .inr h
  | some cached =>
    cases stored with
    | none => exact .inl h
    | some stored =>
      rw [newer] at h
      split_ifs at h
      · exact .inr h
      · exact .inl h

/-- The draft of a thread, and the drafts after the look. -/
def loadDraft (threadId : String) (pruneAt now : Int) : Option (List Char) × Drafts :=
  let d := d.prunedOnce pruneAt
  let (stored, left) := d.loadStored threadId now
  ((newer (d.memory.find? (keyFor threadId)) stored).map (·.text), left)

/-- The loop of `evictMemory` over the other entries, oldest first. -/
def evictFrom (memory : Table DraftEntry.key) (total : Nat) : List DraftEntry → Table DraftEntry.key
  | [] => memory
  | e :: rest =>
    let left := memory.filter (·.key ≠ e.key)
    if total - e.size ≤ MEMORY_MAX_CHARS then left else evictFrom left (total - e.size) rest

def evictMemory (memory : Table DraftEntry.key) (keep : String) : Table DraftEntry.key :=
  let total := (memory.rows.map (·.size)).sum
  if total ≤ MEMORY_MAX_CHARS then memory
  else evictFrom memory total ((memory.rows.filter (·.key ≠ keep)).insertionSort (·.at_ ≤ ·.at_))

def clearDraft (threadId : String) : Drafts :=
  { d with
    memory := d.memory.filter (·.key ≠ keyFor threadId)
    stored := d.stored.filter (·.key ≠ keyFor threadId) }

/-- `stores` says whether `setItem` takes the entry or throws. -/
def saveDraft (threadId : String) (text : List Char) (pruneAt at_ : Int) (stores : Bool) : Drafts :=
  let d := d.prunedOnce pruneAt
  if trim text = [] then d.clearDraft threadId
  else
    let key := keyFor threadId
    let entry : DraftEntry := { key, text, at_ }
    { d with
      memory := evictMemory (d.memory.set entry) key
      stored :=
        if !fitsDraftStore text then d.stored.filter (·.key ≠ key)
        else if stores then d.stored.set entry
        else d.stored }

/-! ### One tab -/

/-- What happened to drafts, for a reader of the past. -/
inductive Event
  | saved (threadId : String) (text : List Char)
  | cleared (threadId : String)
  | evicted (key : String)
  | reloaded

/-- The text of the thread's latest save since it was last cleared. -/
def latest (threadId : String) : List Event → Option (List Char)
  | [] => none
  | .saved id text :: past => if id = threadId then some text else latest threadId past
  | .cleared id :: past => if id = threadId then none else latest threadId past
  | .evicted _ :: past | .reloaded :: past => latest threadId past

/-- The latest text, while the page lives and its memory entry was not evicted. -/
def alive (threadId : String) : List Event → Option (List Char)
  | [] | .reloaded :: _ => none
  | .saved id text :: past => if id = threadId then some text else alive threadId past
  | .cleared id :: past => if id = threadId then none else alive threadId past
  | .evicted key :: past => if key = keyFor threadId then none else alive threadId past

def lastWritten : List Event → Option String
  | [] | .reloaded :: _ => none
  | .saved id _ :: _ => some (keyFor id)
  | .cleared _ :: past | .evicted _ :: past => lastWritten past

structure Tab where
  drafts : Drafts := {}
  clock : Int := 0
  log : List Event := []

/-- A call with its readings of the clock, or a reload of the page. -/
inductive Action
  | save (threadId : String) (text : List Char) (pruneAt at_ : Int) (stores : Bool)
  | clear (threadId : String)
  | load (threadId : String) (pruneAt now : Int)
  | reload

/-- The keys that are in one table and not in another. -/
def gone (before after : Table DraftEntry.key) : List String :=
  (before.rows.map (·.key)).filter fun key => !after.has key

/-- What a save does to drafts: nothing but white space is a clear. -/
def savedEvents (threadId : String) (text : List Char) (at_ : Int) : List Event :=
  if trim text = [] then [.cleared threadId]
  else
    let memory := d.memory.set { key := keyFor threadId, text, at_ }
    (gone memory (evictMemory memory (keyFor threadId))).map .evicted ++ [.saved threadId text]

def step (w : Tab) : Action → Option Tab
  | .save threadId text pruneAt at_ stores =>
    if w.clock ≤ pruneAt ∧ pruneAt ≤ at_ then
      some {
        drafts := w.drafts.saveDraft threadId text pruneAt at_ stores
        clock := at_
        log := savedEvents (w.drafts.prunedOnce pruneAt) threadId text at_ ++ w.log }
    else none
  | .clear threadId =>
    some { w with drafts := w.drafts.clearDraft threadId, log := .cleared threadId :: w.log }
  | .load threadId pruneAt now =>
    if w.clock ≤ pruneAt ∧ pruneAt ≤ now then
      some { w with drafts := (w.drafts.loadDraft threadId pruneAt now).2, clock := now }
    else none
  | .reload => some { w with drafts := { stored := w.drafts.stored }, log := .reloaded :: w.log }

/-- `setItem` throws only where storage holds no entry of the thread. -/
def Steady (w : Tab) : Action → Prop
  | .save threadId text pruneAt _ stores =>
    stores = true ∨ trim text = [] ∨ fitsDraftStore text = false ∨
      (w.drafts.prunedOnce pruneAt).stored.find? (keyFor threadId) = none
  | _ => True

/-- The characters of the memory tier beside the entry last written. -/
def held (memory : Table DraftEntry.key) (keep : Option String) : Nat :=
  ((memory.rows.filter fun e => keep ≠ some e.key).map (·.size)).sum

structure Honest (w : Tab) : Prop where
  latest : ∀ threadId pruneAt now text, (w.drafts.loadDraft threadId pruneAt now).1 = some text →
    Drafts.latest threadId w.log = some text
  alive : ∀ threadId pruneAt now text, Drafts.alive threadId w.log = some text →
    (w.drafts.loadDraft threadId pruneAt now).1 = some text
  bounded : held w.drafts.memory (lastWritten w.log) ≤ MEMORY_MAX_CHARS

/-! ### Eviction -/

section

variable {memory : Table DraftEntry.key} {keep k : String} {entries : List DraftEntry} {total : Nat} {e : DraftEntry}

theorem find?_without (t : Table DraftEntry.key) (k k' : String) :
    (t.filter (·.key ≠ k)).find? k' = if k' = k then none else t.find? k' := by
  rw [Table.find?_filter]
  cases h : t.find? k' with
  | none => simp
  | some e =>
    obtain rfl := Table.key_of_find? h
    split_ifs with hk <;> simp [hk]

theorem find?_evictFrom (h : (evictFrom memory total entries).find? k = some e) : memory.find? k = some e := by
  induction entries generalizing memory total with
  | nil => exact h
  | cons first rest ih =>
    have hleft (hfound : (memory.filter (·.key ≠ first.key)).find? k = some e) : memory.find? k = some e := by
      rw [Table.find?_filter] at hfound
      exact (Option.filter_eq_some_iff.mp hfound).1
    simp only [evictFrom] at h
    split_ifs at h
    · exact hleft h
    · exact hleft (ih h)

theorem find?_evictMemory (h : (evictMemory memory keep).find? k = some e) : memory.find? k = some e := by
  simp only [evictMemory] at h
  split_ifs at h
  · exact h
  · exact find?_evictFrom h

theorem held_some (memory : Table DraftEntry.key) (keep : String) :
    held memory (some keep) = ((memory.rows.filter (·.key ≠ keep)).map (·.size)).sum := by
  simp [held, eq_comm]

theorem held_evictFrom (hperm : (memory.rows.filter (·.key ≠ keep)).Perm entries)
    (htotal : (entries.map (·.size)).sum ≤ total) :
    held (evictFrom memory total entries) (some keep) ≤ MEMORY_MAX_CHARS := by
  induction entries generalizing memory total with
  | nil =>
    rw [evictFrom, held_some, hperm.eq_nil]
    exact Nat.zero_le _
  | cons first rest ih =>
    have hkeys : ((first :: rest).map (·.key)).Nodup :=
      ((hperm.map (·.key)).nodup_iff).mp (memory.nodup.sublist (List.filter_sublist.map _))
    have hrest : (first :: rest).filter (·.key ≠ first.key) = rest := by
      rw [List.filter_cons_of_neg (by simp), List.filter_eq_self]
      intro e he
      simpa using fun heq : e.key = first.key => (List.nodup_cons.mp hkeys).1 (List.mem_map.mpr ⟨e, he, heq⟩)
    have hleft : ((memory.filter (·.key ≠ first.key)).rows.filter (·.key ≠ keep)).Perm rest := by
      rw [Table.rows_filter, List.filter_comm]
      exact hrest ▸ hperm.filter _
    have hsum : (rest.map (·.size)).sum ≤ total - first.size := by
      rw [List.map_cons, List.sum_cons] at htotal
      omega
    simp only [evictFrom]
    split_ifs with hfits
    · rw [held_some, (hleft.map _).sum_eq]
      exact hsum.trans hfits
    · exact ih hleft hsum

theorem held_evictMemory (memory : Table DraftEntry.key) (keep : String) :
    held (evictMemory memory keep) (some keep) ≤ MEMORY_MAX_CHARS := by
  have hothers : ((memory.rows.filter (·.key ≠ keep)).map (·.size)).sum ≤ (memory.rows.map (·.size)).sum :=
    (List.filter_sublist.map _).sum_le_sum fun _ _ => Nat.zero_le _
  simp only [evictMemory]
  split_ifs with hfits
  · rw [held_some]
    exact hothers.trans hfits
  · have hsorted := List.perm_insertionSort (·.at_ ≤ ·.at_) (memory.rows.filter (·.key ≠ keep))
    refine held_evictFrom hsorted.symm ?_
    rw [(hsorted.map _).sum_eq]
    exact hothers

theorem held_filter_le (memory : Table DraftEntry.key) (p : DraftEntry → Bool) (keep : Option String) :
    held (memory.filter p) keep ≤ held memory keep := by
  rw [held, held, Table.rows_filter, List.filter_comm]
  exact (List.filter_sublist.map _).sum_le_sum fun _ _ => Nat.zero_le _

end

/-! ### The past -/

section

variable {threadId : String} {text : List Char} {log : List Event} {keys : List String}

theorem latest_of_alive (h : alive threadId log = some text) : latest threadId log = some text := by
  induction log with
  | nil => cases h
  | cons event past ih =>
    cases event with
    | saved id other =>
      rw [alive] at h
      rw [latest]
      split_ifs at h ⊢
      · exact h
      · exact ih h
    | cleared id =>
      rw [alive] at h
      rw [latest]
      split_ifs at h ⊢
      exact ih h
    | evicted key =>
      rw [alive] at h
      split_ifs at h
      exact ih h
    | reloaded => cases h

theorem latest_evicted : latest threadId (keys.map .evicted ++ log) = latest threadId log := by
  induction keys with
  | nil => rfl
  | cons key keys ih => exact ih

theorem lastWritten_evicted : lastWritten (keys.map .evicted ++ log) = lastWritten log := by
  induction keys with
  | nil => rfl
  | cons key keys ih => exact ih

theorem alive_evicted (h : (alive threadId (keys.map .evicted ++ log)).isSome = true) :
    keyFor threadId ∉ keys ∧ (alive threadId log).isSome = true := by
  induction keys with
  | nil => exact ⟨List.not_mem_nil, h⟩
  | cons key keys ih =>
    rw [List.map_cons, List.cons_append, alive] at h
    split_ifs at h with hkey
    · cases h
    · obtain ⟨hnot, halive⟩ := ih h
      exact ⟨List.not_mem_cons_of_ne_of_not_mem (Ne.symm hkey) hnot, halive⟩

end

/-! ### What every steady step keeps -/

/-- Both tiers hold the latest drafts, and memory those that are alive. -/
structure Sound (d : Drafts) (log : List Event) : Prop where
  cached : ∀ id e, d.memory.find? (keyFor id) = some e → Drafts.latest id log = some e.text
  stored : ∀ id e, d.stored.find? (keyFor id) = some e → Drafts.latest id log = some e.text
  alive : ∀ id, (Drafts.alive id log).isSome = true → d.memory.has (keyFor id) = true
  bounded : held d.memory (lastWritten log) ≤ MEMORY_MAX_CHARS

variable {d d' : Drafts} {log : List Event} {threadId : String} {text : List Char} {pruneAt now : Int}

theorem Sound.of_stored (h : Sound d log) (hmemory : d'.memory = d.memory)
    (hstored : ∀ k e, d'.stored.find? k = some e → d.stored.find? k = some e) : Sound d' log := by
  refine ⟨?_, fun id e he => h.stored id e (hstored _ e he), ?_, ?_⟩
  · rw [hmemory]
    exact h.cached
  · rw [hmemory]
    exact h.alive
  · rw [hmemory]
    exact h.bounded

@[simp] theorem memory_prunedOnce (d : Drafts) (now : Int) : (d.prunedOnce now).memory = d.memory := by
  unfold prunedOnce
  split_ifs <;> rfl

theorem find?_prunedOnce {k : String} {e : DraftEntry} (h : (d.prunedOnce now).stored.find? k = some e) :
    d.stored.find? k = some e := by
  unfold prunedOnce at h
  split_ifs at h
  · exact h
  · rw [Table.find?_filter] at h
    exact (Option.filter_eq_some_iff.mp h).1

theorem Sound.prunedOnce (h : Sound d log) (now : Int) : Sound (d.prunedOnce now) log :=
  h.of_stored (memory_prunedOnce d now) fun _ _ => find?_prunedOnce

theorem loadStored_spec (d : Drafts) (threadId : String) (now : Int) :
    (d.loadStored threadId now).2.memory = d.memory ∧
    (∀ k e, (d.loadStored threadId now).2.stored.find? k = some e → d.stored.find? k = some e) ∧
    ∀ e, (d.loadStored threadId now).1 = some e → d.stored.find? (keyFor threadId) = some e := by
  unfold loadStored
  split
  · exact ⟨rfl, fun _ _ he => he, fun e he => by cases he⟩
  · rename_i entry hfind
    split_ifs
    · refine ⟨rfl, fun k e he => ?_, fun e he => by cases he⟩
      rw [Table.find?_filter] at he
      exact (Option.filter_eq_some_iff.mp he).1
    · exact ⟨rfl, fun _ _ he => he, fun e he => hfind.trans he⟩

section

variable (h : Sound d log)
include h

theorem Sound.load (threadId : String) (pruneAt now : Int) : Sound (d.loadDraft threadId pruneAt now).2 log := by
  obtain ⟨hmemory, hstored, -⟩ := (d.prunedOnce pruneAt).loadStored_spec threadId now
  exact (h.prunedOnce pruneAt).of_stored hmemory hstored

theorem Sound.clear (threadId : String) : Sound (d.clearDraft threadId) (.cleared threadId :: log) := by
  have hlatest {id : String} (hid : keyFor id ≠ keyFor threadId) :
      Drafts.latest id (.cleared threadId :: log) = Drafts.latest id log := by
    rw [Drafts.latest, if_neg fun heq => hid (congrArg keyFor heq.symm)]
  refine ⟨fun id e he => ?_, fun id e he => ?_, fun id halive => ?_, ?_⟩
  · rw [clearDraft, find?_without] at he
    split_ifs at he with hid
    rw [hlatest hid]
    exact h.cached id e he
  · rw [clearDraft, find?_without] at he
    split_ifs at he with hid
    rw [hlatest hid]
    exact h.stored id e he
  · rw [Drafts.alive] at halive
    split_ifs at halive with hid
    · cases halive
    · rw [Table.has, clearDraft, find?_without, if_neg fun heq => hid (keyFor_inj.mp heq).symm]
      exact h.alive id halive
  · exact (held_filter_le _ _ _).trans h.bounded

theorem Sound.save {at_ : Int} {stores : Bool} (hstores : stores = true ∨ trim text = [] ∨
      fitsDraftStore text = false ∨ (d.prunedOnce pruneAt).stored.find? (keyFor threadId) = none) :
    Sound (d.saveDraft threadId text pruneAt at_ stores)
      (savedEvents (d.prunedOnce pruneAt) threadId text at_ ++ log) := by
  have hd := h.prunedOnce pruneAt
  unfold saveDraft savedEvents
  dsimp only
  by_cases hblank : trim text = []
  · rw [if_pos hblank, if_pos hblank]
    exact hd.clear threadId
  rw [if_neg hblank, if_neg hblank, List.append_assoc, List.singleton_append]
  obtain ⟨entry, hentry⟩ : ∃ entry : DraftEntry, entry = { key := keyFor threadId, text, at_ } := ⟨_, rfl⟩
  have hkey : entry.key = keyFor threadId := by rw [hentry]
  have htext : entry.text = text := by rw [hentry]
  rw [← hentry]
  have hold {id : String} (hid : entry.key ≠ keyFor id) :
      Drafts.latest id (.saved threadId text :: log) = Drafts.latest id log := by
    rw [Drafts.latest, if_neg fun heq => hid (by rw [hkey, heq])]
  have hlatest (table : Table DraftEntry.key) (id : String) (e : DraftEntry)
      (htable : ∀ e, table.find? (keyFor id) = some e → Drafts.latest id log = some e.text)
      (he : (table.set entry).find? (keyFor id) = some e) :
      Drafts.latest id (.saved threadId text :: log) = some e.text := by
    rw [Table.find?_set] at he
    split_ifs at he with hid
    · cases he
      rw [Drafts.latest, if_pos (keyFor_inj.mp (hkey.symm.trans hid)), htext]
    · rw [hold hid]
      exact htable e he
  refine ⟨fun id e he => ?_, fun id e he => ?_, fun id halive => ?_, ?_⟩
  · rw [latest_evicted]
    exact hlatest _ id e (hd.cached id) (find?_evictMemory he)
  · rw [latest_evicted]
    dsimp only at he
    split_ifs at he with hfits hstored
    · rw [find?_without] at he
      split_ifs at he with hid
      rw [hold (hkey ▸ Ne.symm hid)]
      exact hd.stored id e he
    · exact hlatest _ id e (hd.stored id) he
    · have hnone : (d.prunedOnce pruneAt).stored.find? (keyFor threadId) = none :=
        ((hstores.resolve_left hstored).resolve_left hblank).resolve_left (by simpa using hfits)
      by_cases hid : threadId = id
      · subst hid
        cases hnone.symm.trans he
      · rw [hold fun heq => hid (keyFor_inj.mp (hkey.symm.trans heq))]
        exact hd.stored id e he
  · obtain ⟨hnot, halive⟩ := alive_evicted halive
    have hbefore : ((d.prunedOnce pruneAt).memory.set entry).has (keyFor id) = true := by
      rw [Table.has, Table.find?_set]
      split_ifs with hid
      · rfl
      · rw [Drafts.alive, if_neg fun heq => hid (by rw [hkey, heq])] at halive
        exact hd.alive id halive
    obtain ⟨e, he, hid⟩ := Table.has_iff.mp hbefore
    by_contra hgone
    exact hnot (List.mem_filter.mpr ⟨hid ▸ List.mem_map_of_mem he, by simpa using hgone⟩)
  · rw [lastWritten_evicted, lastWritten]
    exact held_evictMemory _ _

theorem Sound.reload : Sound { stored := d.stored } (.reloaded :: log) := by
  refine ⟨?_, h.stored, ?_, Nat.zero_le _⟩
  · rintro id e ⟨⟩
  · rintro id ⟨⟩

end

theorem Sound.step {w w' : Tab} {a : Action} (h : Sound w.drafts w.log) (hsteady : Steady w a)
    (hstep : step w a = some w') : Sound w'.drafts w'.log := by
  cases a with
  | save threadId text pruneAt at_ stores =>
    rw [Drafts.step] at hstep
    split_ifs at hstep
    cases hstep
    exact h.save hsteady
  | clear threadId =>
    cases hstep
    exact h.clear threadId
  | load threadId pruneAt now =>
    rw [Drafts.step] at hstep
    split_ifs at hstep
    cases hstep
    exact h.load threadId pruneAt now
  | reload =>
    cases hstep
    exact h.reload

theorem Sound.honest {w : Tab} (h : Sound w.drafts w.log) : Honest w := by
  have hlatest (threadId : String) (pruneAt now : Int) (text : List Char)
      (hload : (w.drafts.loadDraft threadId pruneAt now).1 = some text) : latest threadId w.log = some text := by
    have hmap : (newer ((w.drafts.prunedOnce pruneAt).memory.find? (keyFor threadId))
        ((w.drafts.prunedOnce pruneAt).loadStored threadId now).1).map (·.text) = some text := hload
    obtain ⟨e, hnewer, rfl⟩ := Option.map_eq_some_iff.mp hmap
    obtain ⟨-, -, hfound⟩ := (w.drafts.prunedOnce pruneAt).loadStored_spec threadId now
    rw [memory_prunedOnce] at hnewer
    have hstored (e : DraftEntry) (he : ((w.drafts.prunedOnce pruneAt).loadStored threadId now).1 = some e) :=
      h.stored threadId e (find?_prunedOnce (hfound e he))
    rcases newer_eq_some hnewer with hcached | hother
    · exact h.cached threadId e hcached
    · exact hstored e hother
  refine ⟨hlatest, fun threadId pruneAt now text halive => ?_, h.bounded⟩
  obtain ⟨e, he⟩ := Option.isSome_iff_exists.mp (h.alive threadId (by rw [halive]; rfl))
  obtain ⟨found, hfound⟩ : ∃ found, (w.drafts.loadDraft threadId pruneAt now).1 = some found := by
    simp only [loadDraft, memory_prunedOnce, he]
    cases ((w.drafts.prunedOnce pruneAt).loadStored threadId now).1 <;> exact ⟨_, rfl⟩
  rw [hfound, ← hlatest _ _ _ _ hfound]
  exact latest_of_alive halive

/-- Where `setItem` throws only for threads that have no draft in storage, a load gives the latest draft or none, the
latest one while the page lives and memory has not dropped it, and memory stays under its ceiling. -/
theorem latest_of_steady {w : Tab} (h : Runs.Run step Steady {} w) : Honest w := by
  refine Sound.honest (h.invariant (P := fun w => Sound w.drafts w.log)
    (fun _ _ _ hm hsteady hstep => hm.step hsteady hstep) ?_)
  refine ⟨?_, ?_, ?_, Nat.zero_le _⟩
  · rintro id e ⟨⟩
  · rintro id e ⟨⟩
  · rintro id ⟨⟩

instance (w : Tab) (a : Action) : Decidable (Steady w a) :=
  match a with
  | .save threadId text pruneAt _ stores => inferInstanceAs (Decidable (stores = true ∨ trim text = [] ∨
      fitsDraftStore text = false ∨ (w.drafts.prunedOnce pruneAt).stored.find? (keyFor threadId) = none))
  | .clear _ | .load .. | .reload => .isTrue trivial

/-- A draft that was stored comes back after a reload. -/
theorem latest_of_steady_reloaded : ∃ w, Runs.Run step Steady {} w ∧ latest "t" w.log = some "hi".toList := by
  have hexec : (Runs.exec step Steady {} [.save "t" "hello".toList 0 0 true, .save "t" "hi".toList 1 1 true,
      .reload]).any (fun w => decide ((w.drafts.loadDraft "t" 2 2).1 = some "hi".toList)) = true := by
    decide +kernel
  obtain ⟨w, hrun, hload⟩ := Runs.exists_run_of_exec hexec
  exact ⟨w, hrun, (latest_of_steady hrun).latest "t" 2 2 _ (of_decide_eq_true hload)⟩

/-- A refused entry leaves the draft before it in storage, which a reload brings back. -/
theorem older_comes_back : ¬∀ w, Runs.Run step (fun _ _ => True) {} w → Honest w := by
  intro h
  have hexec : (Runs.exec step (fun _ _ => True) {} [.save "t" "drop it".toList 0 0 true,
      .save "t" "keep it".toList 1 1 false, .reload]).any (fun w => decide
        ((w.drafts.loadDraft "t" 2 2).1 = some "drop it".toList ∧ latest "t" w.log = some "keep it".toList)) =
          true := by
    decide +kernel
  obtain ⟨w, hrun, hw⟩ := Runs.exists_run_of_exec hexec
  obtain ⟨hload, hlatest⟩ := of_decide_eq_true hw
  exact absurd (hlatest.symm.trans ((h w hrun).latest "t" 2 2 _ hload)) (by decide)

end Drafts

end Sightr
