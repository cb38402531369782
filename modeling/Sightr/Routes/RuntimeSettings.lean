import Sightr.Lib.JsText
import Sightr.Lib.Runs
import Sightr.Lib.Table

/-!
# The runtime settings and their file

`bridge/runtime-settings.ts`, with `writeJsonAtomic` of `bridge/json-file.ts`: a call of `set` changes the overlay in
memory, writes all of it to a temporary file, and renames that file. Every call writes the same temporary file, and
calls do not wait for each other. Each operation on the disk is a step of its own, which may fail.
-/

namespace Sightr.RuntimeSettings

open Keyed (Table)

/-! ### Settings -/

inductive SettingKey
  | deviceAllowlist | notifyDelayMs | submitKeys | readLines | autoSettleDays
  deriving DecidableEq

def SETTING_KEYS : List SettingKey := [.deviceAllowlist, .notifyDelayMs, .submitKeys, .readLines, .autoSettleDays]

inductive Setting
  | deviceAllowlist (value : List String)
  | notifyDelayMs (value : ℚ)
  | submitKeys (value : List String)
  | readLines (value : ℚ)
  | autoSettleDays (value : ℚ)
  deriving DecidableEq

def Setting.key : Setting → SettingKey
  | .deviceAllowlist _ => .deviceAllowlist
  | .notifyDelayMs _ => .notifyDelayMs
  | .submitKeys _ => .submitKeys
  | .readLines _ => .readLines
  | .autoSettleDays _ => .autoSettleDays

/-- A `Partial<RuntimeSettings>`: some of the settings, in the order of the object's properties. -/
abbrev Overlay := Table Setting.key

structure Config where
  deviceAllowlist : List String
  notifyDelayMs : ℚ
  submitKeys : List String
  readLines : ℚ
  autoSettleDays : Option ℚ

variable (cfg : Config)

def defaultsFrom : SettingKey → Setting
  | .deviceAllowlist => .deviceAllowlist cfg.deviceAllowlist
  | .notifyDelayMs => .notifyDelayMs cfg.notifyDelayMs
  | .submitKeys => .submitKeys cfg.submitKeys
  | .readLines => .readLines cfg.readLines
  | .autoSettleDays => .autoSettleDays (cfg.autoSettleDays.getD 0)

def current (overlay : Overlay) (k : SettingKey) : Setting := (overlay.find? k).getD (defaultsFrom cfg k)

def spread (overlay patch : Overlay) : Overlay := patch.rows.foldl Table.set overlay

/-- Is the override dropped: reset, or equal to what `.env` says? -/
def dropped (reset : List SettingKey) (s : Setting) : Bool := reset.contains s.key || s = defaultsFrom cfg s.key

def applyPatch (overlay patch : Overlay) (reset : List SettingKey) : Overlay :=
  SETTING_KEYS.foldl (fun next k => next.filter fun s => !(s.key = k && dropped cfg reset s)) (spread overlay patch)

/-! ### The disk -/

/-- The settings file and its temporary file. A name is an inode's number; a file that was renamed or deleted keeps
its inode for those who have it open. -/
structure Disk where
  inodes : List (List UInt8)
  file : Option Nat
  tmp : Option Nat
  placed : ∀ n ∈ file, n < inodes.length
  apart : ∀ n ∈ tmp, n < inodes.length ∧ n ∉ file

variable (d : Disk)

def Disk.text : Option (List UInt8) := d.file.bind (d.inodes[·]?)

def Disk.tmpInode : Nat := d.tmp.getD d.inodes.length

/-- The inodes once the temporary file is open and empty. -/
def Disk.emptied : List (List UInt8) :=
  if d.tmp.isSome then d.inodes.set d.tmpInode [] else d.inodes ++ [[]]

theorem Disk.length_le_emptied : d.inodes.length ≤ d.emptied.length := by
  unfold Disk.emptied
  split_ifs
  · rw [List.length_set]
  · simp

theorem Disk.tmpInode_lt : d.tmpInode < d.emptied.length ∧ d.tmpInode ∉ d.file := by
  unfold Disk.emptied Disk.tmpInode
  cases htmp : d.tmp with
  | none => exact ⟨by simp, fun hfile => absurd (d.placed _ hfile) (lt_irrefl _)⟩
  | some n => exact ⟨by simpa using (d.apart n htmp).1, (d.apart n htmp).2⟩

/-- `writeFile` opens the temporary file, and empties it. -/
def Disk.openTmp : Disk where
  inodes := d.emptied
  file := d.file
  tmp := some d.tmpInode
  placed n hn := Nat.lt_of_lt_of_le (d.placed n hn) d.length_le_emptied
  apart _ hn := Option.some_injective _ hn ▸ d.tmpInode_lt

/-- A chunk is written at an offset; a gap before it reads as zeros. -/
def writeAt (text : List UInt8) (offset : Nat) (chunk : List UInt8) : List UInt8 :=
  text.take offset ++ List.replicate (offset - text.length) 0 ++ chunk ++ text.drop (offset + chunk.length)

/-- A chunk goes to an inode that is open, whatever its name is by now. -/
def Disk.write (n offset : Nat) (chunk : List UInt8) : Disk where
  inodes := d.inodes.modify n fun text => writeAt text offset chunk
  file := d.file
  tmp := d.tmp
  placed m hm := by
    rw [List.length_modify]
    exact d.placed m hm
  apart m hm := by
    rw [List.length_modify]
    exact d.apart m hm

/-- `rename(tmp, file)`: there must be a temporary file. -/
def Disk.rename : Option Disk :=
  d.tmp.attach.map fun n =>
    { inodes := d.inodes, file := some n.1, tmp := none
      placed := fun _ hm => Option.some_injective _ hm ▸ (d.apart n.1 n.2).1
      apart := fun m hm => absurd hm (Option.not_mem_none m) }

def Disk.unlinkTmp : Disk where
  inodes := d.inodes
  file := d.file
  tmp := none
  placed := d.placed
  apart m hm := absurd hm (Option.not_mem_none m)

/-! ### Calls of `set` -/

inductive SetPhase
  | making
  | opening
  /-- `writeFile` has an inode open, and has written so many bytes. -/
  | writing (inode offset : Nat)
  | moving
  | unlinking
  | resolved
  | rejected
  deriving DecidableEq

def SetPhase.settled (p : SetPhase) : Bool := p = .resolved || p = .rejected

/-- Has the call opened the temporary file, and not settled? -/
def SetPhase.holding : SetPhase → Bool
  | .writing _ _ | .moving | .unlinking => true
  | _ => false

structure SetCall where
  patch : Overlay
  reset : List SettingKey
  before : Overlay
  phase : SetPhase := .making

/-- The overlay that the call left in memory, and writes. -/
def SetCall.after (c : SetCall) : Overlay := applyPatch cfg c.before c.patch c.reset

structure Store where
  overlay : Overlay
  disk : Disk
  calls : List SetCall := []

inductive Action
  | set (patch : Overlay) (reset : List SettingKey)
  | mkdir (i : Nat)
  | openTmp (i : Nat)
  | write (i count : Nat)
  | close (i : Nat)
  | rename (i : Nat)
  | fail (i : Nat)
  | unlink (i : Nat) (fails : Bool)

variable (cfg : Config) (encode : Overlay → List UInt8) (w : Store) (i : Nat)

def Store.phase? : Option SetPhase := w.calls[i]?.map (·.phase)

def Store.call (patch : Overlay) (reset : List SettingKey) : Store :=
  { w with
    overlay := applyPatch cfg w.overlay patch reset
    calls := w.calls ++ [{ patch, reset, before := w.overlay }] }

def Store.move (p : SetPhase) (disk : Disk) : Store :=
  { w with disk, calls := w.calls.modify i fun c => { c with phase := p } }

def stepCall (c : SetCall) : Action → Option Store
  | .mkdir _ => if c.phase = .making then some (w.move i .opening w.disk) else none
  | .openTmp _ =>
    if c.phase = .opening then some (w.move i (.writing w.disk.tmpInode 0) w.disk.openTmp) else none
  | .write _ count =>
    match c.phase with
    | .writing n offset =>
      let chunk := ((encode (c.after cfg)).drop offset).take count
      some (w.move i (.writing n (offset + chunk.length)) (w.disk.write n offset chunk))
    | _ => none
  | .close _ =>
    match c.phase with
    | .writing _ offset =>
      if (encode (c.after cfg)).length ≤ offset then some (w.move i .moving w.disk) else none
    | _ => none
  | .rename _ => if c.phase = .moving then w.disk.rename.map fun disk => w.move i .resolved disk else none
  | .fail _ =>
    match c.phase with
    | .making | .opening | .writing _ _ => some (w.move i .rejected w.disk)
    | .moving => some (w.move i .unlinking w.disk)
    | _ => none
  | .unlink _ fails =>
    if c.phase = .unlinking then
      some (w.move i .rejected (if fails then w.disk else w.disk.unlinkTmp))
    else none
  | .set _ _ => none

/-- One step: a call of `set`, or an operation of one of the calls. -/
def step (a : Action) : Option Store :=
  match a with
  | .set patch reset => some (w.call cfg patch reset)
  | .mkdir i | .openTmp i | .write i _ | .close i | .rename i | .fail i | .unlink i _ =>
    w.calls[i]?.bind fun c => stepCall cfg encode w i c a

/-- No other call has the temporary file open, and no later one has replaced the settings file. -/
def Alone : Prop := ∀ j < w.calls.length, j ≠ i → ∀ p ∈ w.phase? j, p.holding = false ∧ (i < j → p ≠ .resolved)

/-- The temporary file is opened by a call that is alone. -/
def Exclusive : Action → Prop
  | .openTmp i => Alone w i
  | _ => True

instance (w : Store) (i : Nat) : Decidable (Alone w i) :=
  inferInstanceAs (Decidable (∀ j < w.calls.length, j ≠ i → ∀ p ∈ w.phase? j, _))

instance (w : Store) : (a : Action) → Decidable (Exclusive w a)
  | .openTmp i => inferInstanceAs (Decidable (Alone w i))
  | .set _ _ | .mkdir _ | .write _ _ | .close _ | .rename _ | .fail _ | .unlink _ _ =>
    inferInstanceAs (Decidable True)

/-- The patch and the reset change no effective setting. -/
def Changeless (overlay patch : Overlay) (reset : List SettingKey) : Prop :=
  ∀ k ∈ SETTING_KEYS, current cfg overlay k =
    if k ∈ reset then defaultsFrom cfg k else (patch.find? k).getD (current cfg overlay k)

/-- Only a call fails that changed no effective setting. -/
def Harmless : Action → Prop
  | .fail i => ∀ c ∈ w.calls[i]?, Changeless cfg c.before c.patch c.reset
  | _ => True

instance (overlay patch : Overlay) (reset : List SettingKey) : Decidable (Changeless cfg overlay patch reset) :=
  inferInstanceAs (Decidable (∀ k ∈ SETTING_KEYS, _ = _))

instance (w : Store) : (a : Action) → Decidable (Harmless cfg w a)
  | .fail i => inferInstanceAs (Decidable (∀ c ∈ w.calls[i]?, Changeless cfg c.before c.patch c.reset))
  | .set _ _ | .mkdir _ | .openTmp _ | .write _ _ | .close _ | .rename _ | .unlink _ _ =>
    inferInstanceAs (Decidable True)

/-- The overlay of the calls that did not reject, one after another. -/
def unrejected (first : Overlay) (calls : List SetCall) : Overlay :=
  calls.foldl (fun o c => if c.phase = .rejected then o else applyPatch cfg o c.patch c.reset) first

/-! ### What a patch leaves -/

variable {cfg : Config} {encode : Overlay → List UInt8}

theorem mem_SETTING_KEYS (k : SettingKey) : k ∈ SETTING_KEYS := by
  cases k <;> decide

theorem find?_spread (overlay patch : Overlay) (k : SettingKey) :
    (spread overlay patch).find? k = (patch.find? k).or (overlay.find? k) :=
  Table.find?_foldl_set patch.nodup overlay k

theorem find?_foldl_filter (reset : List SettingKey) (keys : List SettingKey) (t : Overlay) (k : SettingKey) :
    (keys.foldl (fun next k => next.filter fun s => !(s.key = k && dropped cfg reset s)) t).find? k =
      (t.find? k).filter fun s => !(keys.contains k && dropped cfg reset s) := by
  induction keys generalizing t with
  | nil => cases h : t.find? k <;> simp [h, Option.filter_some]
  | cons key keys ih =>
    rw [List.foldl_cons, ih, Table.find?_filter]
    cases hfind : t.find? k with
    | none => rfl
    | some s =>
      obtain rfl := Table.key_of_find? hfind
      by_cases hkey : s.key = key <;> cases hdrop : dropped cfg reset s <;> simp [hkey, hdrop, Option.filter_some]

theorem find?_applyPatch (overlay patch : Overlay) (reset : List SettingKey) (k : SettingKey) :
    (applyPatch cfg overlay patch reset).find? k =
      ((patch.find? k).or (overlay.find? k)).filter fun s => !dropped cfg reset s := by
  rw [applyPatch, find?_foldl_filter, find?_spread, List.contains_iff_mem.mpr (mem_SETTING_KEYS k)]
  rfl

theorem current_applyPatch (overlay patch : Overlay) (reset : List SettingKey) (k : SettingKey) :
    current cfg (applyPatch cfg overlay patch reset) k =
      if k ∈ reset then defaultsFrom cfg k else (patch.find? k).getD (current cfg overlay k) := by
  have hkept : ∀ s : Setting, s.key = k →
      ((some s).filter fun s => !dropped cfg reset s).getD (defaultsFrom cfg k) =
        if k ∈ reset then defaultsFrom cfg k else s := by
    rintro s rfl
    by_cases hreset : s.key ∈ reset
    · simp [dropped, hreset, Option.filter_some]
    · by_cases hdefault : s = defaultsFrom cfg s.key
      · simp [dropped, hreset, ← hdefault, Option.filter_some]
      · simp [dropped, hreset, hdefault, Option.filter_some]
  rw [current, find?_applyPatch, current]
  cases hpatch : patch.find? k with
  | some s => exact hkept s (Table.key_of_find? hpatch)
  | none =>
    cases hold : overlay.find? k with
    | some s => exact hkept s (Table.key_of_find? hold)
    | none => simp

variable {o o' : Overlay}

theorem current_applyPatch_congr (h : current cfg o = current cfg o') (patch : Overlay) (reset : List SettingKey) :
    current cfg (applyPatch cfg o patch reset) = current cfg (applyPatch cfg o' patch reset) := by
  funext k
  rw [current_applyPatch, current_applyPatch, h]

variable {overlay patch : Overlay} {reset : List SettingKey}

theorem changeless_iff :
    Changeless cfg overlay patch reset ↔ current cfg (applyPatch cfg overlay patch reset) = current cfg overlay := by
  constructor
  · intro h
    funext k
    rw [current_applyPatch, ← h k (mem_SETTING_KEYS k)]
  · intro h k _
    rw [← current_applyPatch, h]

theorem applyPatch_absent (overlay patch : Overlay) (reset : List SettingKey) (k : SettingKey) :
    (applyPatch cfg overlay patch reset).find? k ≠ some (defaultsFrom cfg k) ∧
      (k ∈ reset → (applyPatch cfg overlay patch reset).find? k = none) := by
  constructor
  · intro h
    have hkey := Table.key_of_find? h
    rw [find?_applyPatch] at h
    have hdrop := (Option.filter_eq_some_iff.mp h).2
    simp [dropped, hkey] at hdrop
  · intro hreset
    rw [Option.eq_none_iff_forall_ne_some]
    intro s h
    have hkey := Table.key_of_find? h
    rw [find?_applyPatch] at h
    have hdrop := (Option.filter_eq_some_iff.mp h).2
    simp [dropped, hkey, hreset] at hdrop

theorem applyPatch_unchanged {k : SettingKey} (hpatch : patch.find? k = none) (hreset : k ∉ reset)
    (hold : overlay.find? k ≠ some (defaultsFrom cfg k)) :
    (applyPatch cfg overlay patch reset).find? k = overlay.find? k := by
  rw [find?_applyPatch, hpatch, Option.none_or]
  cases hfind : overlay.find? k with
  | none => rfl
  | some s =>
    obtain rfl := Table.key_of_find? hfind
    have hne : s ≠ defaultsFrom cfg s.key := fun h => hold (by rw [hfind, ← h])
    simp [dropped, hreset, hne]

/-! ### What the files hold -/

theorem Disk.text_openTmp : d.openTmp.text = d.text := by
  refine Option.bind_congr fun n hn => ?_
  change d.emptied[n]? = d.inodes[n]?
  have hne : d.tmpInode ≠ n := fun h => d.tmpInode_lt.2 (h ▸ hn)
  unfold Disk.emptied
  split_ifs
  · exact List.getElem?_set_ne hne
  · exact List.getElem?_append_left (d.placed n hn)

theorem Disk.text_write {d : Disk} {n : Nat} (h : n ∉ d.file) (offset : Nat) (chunk : List UInt8) :
    (d.write n offset chunk).text = d.text := by
  refine Option.bind_congr fun m hm => ?_
  exact List.getElem?_modify_ne _ _ fun hnm => h (hnm ▸ hm)

theorem Disk.getElem?_openTmp : d.openTmp.inodes[d.tmpInode]? = some [] := by
  change d.emptied[d.tmpInode]? = some []
  unfold Disk.emptied Disk.tmpInode
  cases htmp : d.tmp with
  | none => simp
  | some n => exact List.getElem?_set_self (d.apart n htmp).1

theorem writeAt_take {text : List UInt8} {offset : Nat} (h : offset ≤ text.length) (count : Nat) :
    writeAt (text.take offset) offset ((text.drop offset).take count) =
      text.take (offset + ((text.drop offset).take count).length) := by
  have hlength : (text.take offset).length = offset := List.length_take_of_le h
  have hnone : (text.take offset).drop (offset + ((text.drop offset).take count).length) = [] :=
    List.drop_eq_nil_of_le (by omega)
  rw [writeAt, hnone, hlength, Nat.sub_self, List.replicate_zero, List.append_nil, List.append_nil,
    List.take_take, min_self, List.take_add, List.length_take, ← List.take_eq_take_min]

/-! ### What a step keeps of the disk -/

section Held

variable {first : Option (List UInt8)} {w t : Store} {i j : Nat} {p q : SetPhase} {disk : Disk} {c : SetCall}

theorem Store.getElem?_move :
    (w.move i p disk).calls[j]? = w.calls[j]?.map fun c => { c with phase := if i = j then p else c.phase } := by
  rw [Store.move, List.getElem?_modify]
  cases w.calls[j]? with
  | none => rfl
  | some c => split_ifs <;> rfl

theorem Store.phase?_move : (w.move i p disk).phase? j = (w.phase? j).map fun q => if i = j then p else q := by
  rw [Store.phase?, Store.phase?, getElem?_move, Option.map_map, Option.map_map]
  rfl

theorem Store.length_move : (w.move i p disk).calls.length = w.calls.length := List.length_modify _ _ _

def Written (disk : Disk) (text : List UInt8) : SetPhase → Prop
  | .writing n offset => disk.tmp = some n ∧ offset ≤ text.length ∧ disk.inodes[n]? = some (text.take offset)
  | .moving => ∃ n ∈ disk.tmp, disk.inodes[n]? = some text
  | _ => True

variable (cfg encode first w) in
/-- `settings.json` is what it was first, or what the latest of the resolved calls wrote. -/
def Newest : Prop :=
  (w.disk.text = first ∧ ∀ j, w.phase? j ≠ some .resolved) ∨
    ∃ i c, w.calls[i]? = some c ∧ c.phase = .resolved ∧ (∀ j, i < j → w.phase? j ≠ some .resolved) ∧
      w.disk.text = some (encode (c.after cfg))

variable (cfg encode first w) in
/-- What holds of the disk and the calls at any time. -/
structure Held : Prop where
  last : ∀ (i : Nat) (c : SetCall), w.calls[i]? = some c → i + 1 = w.calls.length → w.overlay = c.after cfg
  sole : ∀ (i : Nat) (p : SetPhase), w.phase? i = some p → p.holding = true → Alone w i
  written : ∀ (i : Nat) (c : SetCall), w.calls[i]? = some c → Written w.disk (encode (c.after cfg)) c.phase
  text : Newest cfg encode first w

theorem last_move (h : Held cfg encode first w) (j : Nat) (d : SetCall) (hd : (w.move i p disk).calls[j]? = some d)
    (hj : j + 1 = (w.move i p disk).calls.length) : (w.move i p disk).overlay = d.after cfg := by
  rw [Store.getElem?_move] at hd
  obtain ⟨c, hc, rfl⟩ := Option.map_eq_some_iff.mp hd
  exact h.last j c hc (hj.trans Store.length_move)

theorem newest_move (h : Newest cfg encode first w) (hc : w.calls[i]? = some c) (hold : c.phase ≠ .resolved)
    (hp : p ≠ .resolved) (htext : disk.text = w.disk.text) : Newest cfg encode first (w.move i p disk) := by
  have hphase : ∀ j, w.phase? j ≠ some .resolved → (w.move i p disk).phase? j ≠ some .resolved := by
    intro j hj hmoved
    rw [Store.phase?_move] at hmoved
    obtain ⟨q, hq, hqp⟩ := Option.map_eq_some_iff.mp hmoved
    split_ifs at hqp
    · exact hp hqp
    · exact hj (hqp ▸ hq)
  obtain ⟨hfirst, hnone⟩ | ⟨k, d, hk, hd, hlater, hd'⟩ := h
  · exact .inl ⟨htext.trans hfirst, fun j => hphase j (hnone j)⟩
  · have hik : i ≠ k := by
      rintro rfl
      exact hold (Option.some_injective _ (hc.symm.trans hk) ▸ hd)
    refine .inr ⟨k, d, ?_, hd, fun j hj => hphase j (hlater j hj), htext.trans hd'⟩
    simp [Store.getElem?_move, hk, hik]

theorem lt_length_of_phase? (h : w.phase? i = some p) : i < w.calls.length := by
  obtain ⟨c, hc, -⟩ := Option.map_eq_some_iff.mp h
  exact (List.getElem?_eq_some_iff.mp hc).1

theorem Alone.not_holding (h : Alone w i) (hj : w.phase? j = some p) (hhold : p.holding = true) : j = i := by
  by_contra hne
  rw [(h j (lt_length_of_phase? hj) hne p hj).1] at hhold
  cases hhold

theorem Alone.not_resolved (h : Alone w i) (hij : i < j) : w.phase? j ≠ some .resolved := fun hj =>
  (h j (lt_length_of_phase? hj) (ne_of_gt hij) _ hj).2 hij rfl

theorem Alone.move_of_ended (h : Alone w j) (hp : p.holding = false) (hres : p ≠ .resolved) :
    Alone (w.move i p disk) j := by
  intro k hk hkj q hq
  rw [Option.mem_def, Store.phase?_move] at hq
  obtain ⟨r, hr, rfl⟩ := Option.map_eq_some_iff.mp hq
  split_ifs
  · exact ⟨hp, fun _ => hres⟩
  · exact h k (Store.length_move ▸ hk) hkj r hr

theorem Alone.move_self (h : Alone w i) : Alone (w.move i p disk) i := by
  intro k hk hki q hq
  rw [Option.mem_def, Store.phase?_move] at hq
  obtain ⟨r, hr, rfl⟩ := Option.map_eq_some_iff.mp hq
  rw [if_neg (Ne.symm hki)]
  exact h k (Store.length_move ▸ hk) hki r hr

theorem Alone.eq_of_holding (h : Alone w i) (hj : (w.move i p disk).phase? j = some q)
    (hhold : q.holding = true) : j = i := by
  by_contra hne
  rw [Store.phase?_move] at hj
  obtain ⟨r, hr, rfl⟩ := Option.map_eq_some_iff.mp hj
  rw [if_neg (Ne.symm hne)] at hhold
  exact hne (h.not_holding hr hhold)

theorem Held.ended (h : Held cfg encode first w) (hc : w.calls[i]? = some c) (hold : c.phase ≠ .resolved)
    (hp : p.holding = false) (hres : p ≠ .resolved) : Held cfg encode first (w.move i p w.disk) where
  last := last_move h
  sole j q hq hhold := by
    rw [Store.phase?_move] at hq
    obtain ⟨r, hr, rfl⟩ := Option.map_eq_some_iff.mp hq
    split_ifs at hhold
    · rw [hp] at hhold
      cases hhold
    · exact (h.sole j r hr hhold).move_of_ended hp hres
  written j d hd := by
    rw [Store.getElem?_move] at hd
    obtain ⟨e, he, rfl⟩ := Option.map_eq_some_iff.mp hd
    dsimp only
    split_ifs
    · cases p with
      | writing | moving => cases hp
      | making | opening | unlinking | resolved | rejected => trivial
    · exact h.written j e he
  text := newest_move h.text hc hold hres rfl

theorem written_move (halone : Alone w i) (hc : w.calls[i]? = some c)
    (hwritten : Written disk (encode (c.after cfg)) p) (j : Nat) (d : SetCall)
    (hd : (w.move i p disk).calls[j]? = some d) : Written disk (encode (d.after cfg)) d.phase := by
  have hphase : (w.move i p disk).phase? j = some d.phase := by rw [Store.phase?, hd]; rfl
  by_cases hij : j = i
  · subst hij
    rw [Store.getElem?_move, hc] at hd
    cases hd
    dsimp only
    rw [if_pos rfl]
    exact hwritten
  · cases hq : d.phase with
    | writing | moving => exact absurd (halone.eq_of_holding (hq ▸ hphase) rfl) hij
    | making | opening | unlinking | resolved | rejected => trivial

theorem Held.went_on (h : Held cfg encode first w) (halone : Alone w i) (hc : w.calls[i]? = some c)
    (hold : c.phase ≠ .resolved) (hres : p ≠ .resolved) (htext : disk.text = w.disk.text)
    (hwritten : Written disk (encode (c.after cfg)) p) : Held cfg encode first (w.move i p disk) where
  last := last_move h
  sole j q hq hhold := by
    obtain rfl := halone.eq_of_holding hq hhold
    exact halone.move_self
  written := written_move halone hc hwritten
  text := newest_move h.text hc hold hres htext

theorem Held.resolves (h : Held cfg encode first w) (halone : Alone w i) (hc : w.calls[i]? = some c)
    (htext : disk.text = some (encode (c.after cfg))) : Held cfg encode first (w.move i .resolved disk) where
  last := last_move h
  sole j q hq hhold := by
    obtain rfl := halone.eq_of_holding hq hhold
    exact halone.move_self
  written := written_move halone hc trivial
  text := by
    refine .inr ⟨i, { c with phase := .resolved }, ?_, rfl, fun j hij => ?_, htext⟩
    · simp [Store.getElem?_move, hc]
    · exact (halone.move_self (p := .resolved)).not_resolved hij

/-! ### A call more -/

variable {patch : Overlay} {reset : List SettingKey}

theorem Store.getElem?_call {d : SetCall} : (w.call cfg patch reset).calls[j]? = some d ↔
    w.calls[j]? = some d ∨ j = w.calls.length ∧ d = { patch, reset, before := w.overlay } := by
  rw [Store.call, List.getElem?_append]
  split_ifs with hj
  · exact ⟨.inl, fun h => h.elim id fun h => absurd h.1 (ne_of_lt hj)⟩
  · rw [List.getElem?_eq_none (Nat.le_of_not_lt hj), List.getElem?_singleton]
    split_ifs with hzero
    · have hlast : j = w.calls.length := by omega
      simp [hlast, eq_comm]
    · have hpast : j ≠ w.calls.length := by omega
      simp [hpast]

theorem Store.phase?_call : (w.call cfg patch reset).phase? j = some p ↔
    w.phase? j = some p ∨ j = w.calls.length ∧ p = .making := by
  rw [Store.phase?, Store.phase?, Option.map_eq_some_iff, Option.map_eq_some_iff]
  constructor
  · rintro ⟨d, hd, rfl⟩
    obtain hd | ⟨rfl, rfl⟩ := Store.getElem?_call.mp hd
    · exact .inl ⟨d, hd, rfl⟩
    · exact .inr ⟨rfl, rfl⟩
  · rintro (⟨d, hd, rfl⟩ | ⟨rfl, rfl⟩)
    · exact ⟨d, Store.getElem?_call.mpr (.inl hd), rfl⟩
    · exact ⟨_, Store.getElem?_call.mpr (.inr ⟨rfl, rfl⟩), rfl⟩

theorem Store.length_call : (w.call cfg patch reset).calls.length = w.calls.length + 1 := by
  simp [Store.call]

theorem Alone.call (h : Alone w i) : Alone (w.call cfg patch reset) i := by
  intro j _ hji q hq
  obtain hq | ⟨rfl, rfl⟩ := Store.phase?_call.mp hq
  · exact h j (lt_length_of_phase? hq) hji q hq
  · exact ⟨rfl, fun _ hres => (by cases hres)⟩

theorem Held.call (h : Held cfg encode first w) : Held cfg encode first (w.call cfg patch reset) where
  last j d hd hj := by
    obtain hd | ⟨rfl, rfl⟩ := Store.getElem?_call.mp hd
    · have hlt := (List.getElem?_eq_some_iff.mp hd).1
      rw [Store.length_call] at hj
      omega
    · rfl
  sole j q hq hhold := by
    obtain hq | ⟨rfl, rfl⟩ := Store.phase?_call.mp hq
    · exact (h.sole j q hq hhold).call
    · cases hhold
  written j d hd := by
    obtain hd | ⟨rfl, rfl⟩ := Store.getElem?_call.mp hd
    · exact h.written j d hd
    · trivial
  text := by
    have hunresolved : ∀ j, w.phase? j ≠ some .resolved → (w.call cfg patch reset).phase? j ≠ some .resolved := by
      intro j hj hcall
      obtain hq | ⟨-, hq⟩ := Store.phase?_call.mp hcall
      · exact hj hq
      · cases hq
    obtain ⟨hfirst, hnone⟩ | ⟨i, c, hc, hres, hlater, htext⟩ := h.text
    · exact .inl ⟨hfirst, fun j => hunresolved j (hnone j)⟩
    · exact .inr ⟨i, c, Store.getElem?_call.mpr (.inl hc), hres, fun j hj => hunresolved j (hlater j hj), htext⟩

/-! ### Steps -/

theorem Written.openTmp (d : Disk) (text : List UInt8) : Written d.openTmp text (.writing d.tmpInode 0) :=
  ⟨rfl, Nat.zero_le _, d.getElem?_openTmp⟩

variable {d : Disk} {text : List UInt8}

theorem Written.write {n offset : Nat} (h : Written d text (.writing n offset)) (count : Nat) :
    Written (d.write n offset ((text.drop offset).take count)) text
      (.writing n (offset + ((text.drop offset).take count).length)) := by
  obtain ⟨htmp, hoffset, hinode⟩ := h
  refine ⟨htmp, ?_, ?_⟩
  · rw [List.length_take, List.length_drop]
    omega
  · change (d.inodes.modify n _)[n]? = _
    rw [List.getElem?_modify_eq, hinode, ← writeAt_take hoffset]
    rfl

theorem Disk.text_rename {d' : Disk} (h : Written d text .moving) (hmoved : d.rename = some d') :
    d'.text = some text := by
  obtain ⟨n, hn, hinode⟩ := h
  obtain ⟨m, hm, rfl⟩ := Option.map_eq_some_iff.mp hmoved
  have hmn : m.1 = n := Option.some_injective _ (m.2.symm.trans hn)
  exact hmn ▸ hinode

variable {a : Action}

theorem Held.stepCall (h : Held cfg encode first w) (hc : w.calls[i]? = some c)
    (halone : ∀ k, a = .openTmp k → Alone w i) (hstep : stepCall cfg encode w i c a = some t) :
    Held cfg encode first t := by
  have hphase : w.phase? i = some c.phase := by rw [Store.phase?, hc]; rfl
  cases a with
  | set patch reset => cases hstep
  | mkdir k =>
    obtain ⟨hp, hgo⟩ := Option.ite_none_right_eq_some.mp hstep
    cases hgo
    exact h.ended hc (by simp [hp]) rfl (by simp)
  | openTmp k =>
    obtain ⟨hp, hgo⟩ := Option.ite_none_right_eq_some.mp hstep
    cases hgo
    exact h.went_on (halone k rfl) hc (by simp [hp]) (by simp) w.disk.text_openTmp (Written.openTmp _ _)
  | write k count =>
    cases hp : c.phase with
    | writing n offset =>
      simp only [RuntimeSettings.stepCall, hp, Option.some.injEq] at hstep
      have hwritten := h.written i c hc
      rw [hp] at hwritten
      subst hstep
      exact h.went_on (h.sole i _ hphase (by rw [hp]; rfl)) hc (by simp [hp]) (by simp)
        (Disk.text_write (w.disk.apart n hwritten.1).2 _ _) (hwritten.write count)
    | making | opening | moving | unlinking | resolved | rejected =>
      simp [RuntimeSettings.stepCall, hp] at hstep
  | close k =>
    cases hp : c.phase with
    | writing n offset =>
      simp only [RuntimeSettings.stepCall, hp] at hstep
      obtain ⟨hall, hgo⟩ := Option.ite_none_right_eq_some.mp hstep
      cases hgo
      obtain ⟨htmp, -, hinode⟩ : Written w.disk (encode (c.after cfg)) (.writing n offset) := hp ▸ h.written i c hc
      rw [List.take_of_length_le hall] at hinode
      exact h.went_on (h.sole i _ hphase (by rw [hp]; rfl)) hc (by simp [hp]) (by simp) rfl ⟨n, htmp, hinode⟩
    | making | opening | moving | unlinking | resolved | rejected =>
      simp [RuntimeSettings.stepCall, hp] at hstep
  | rename k =>
    obtain ⟨hp, hgo⟩ := Option.ite_none_right_eq_some.mp hstep
    obtain ⟨disk, hdisk, rfl⟩ := Option.map_eq_some_iff.mp hgo
    have hwritten : Written w.disk (encode (c.after cfg)) .moving := hp ▸ h.written i c hc
    exact h.resolves (h.sole i _ hphase (by rw [hp]; rfl)) hc (Disk.text_rename hwritten hdisk)
  | fail k =>
    cases hp : c.phase with
    | making | opening | writing =>
      simp only [RuntimeSettings.stepCall, hp, Option.some.injEq] at hstep
      subst hstep
      exact h.ended hc (by simp [hp]) rfl (by simp)
    | moving =>
      simp only [RuntimeSettings.stepCall, hp, Option.some.injEq] at hstep
      subst hstep
      exact h.went_on (h.sole i _ hphase (by rw [hp]; rfl)) hc (by simp [hp]) (by simp) rfl trivial
    | unlinking | resolved | rejected => simp [RuntimeSettings.stepCall, hp] at hstep
  | unlink k fails =>
    obtain ⟨hp, hgo⟩ := Option.ite_none_right_eq_some.mp hstep
    cases hgo
    refine h.went_on (h.sole i _ hphase (by rw [hp]; rfl)) hc (by simp [hp]) (by simp) ?_ trivial
    cases fails <;> rfl

theorem Held.step (h : Held cfg encode first w) (hexclusive : Exclusive w a) (hstep : step cfg encode w a = some t) :
    Held cfg encode first t := by
  cases a with
  | set patch reset =>
    cases hstep
    exact h.call
  | openTmp i =>
    obtain ⟨c, hc, hgo⟩ := Option.bind_eq_some_iff.mp hstep
    exact h.stepCall hc (fun _ _ => hexclusive) hgo
  | mkdir i | write i | close i | rename i | fail i | unlink i =>
    obtain ⟨c, hc, hgo⟩ := Option.bind_eq_some_iff.mp hstep
    exact h.stepCall hc (fun _ hopen => (by cases hopen)) hgo

end Held

/-! ### What the calls leave in memory -/

/-- Each call found the overlay that the one before it left. -/
def Linked (cfg : Config) : Overlay → List SetCall → Overlay → Prop
  | o, [], last => o = last
  | o, c :: calls, last => c.before = o ∧ Linked cfg (c.after cfg) calls last

variable {last : Overlay} {calls : List SetCall} {c : SetCall}

theorem Linked.concat (h : Linked cfg o calls last) (hc : c.before = last) :
    Linked cfg o (calls ++ [c]) (c.after cfg) := by
  induction calls generalizing o with
  | nil => exact ⟨hc.trans h.symm, rfl⟩
  | cons d calls ih => exact ⟨h.1, ih h.2⟩

theorem Linked.move {o last : Overlay} {calls : List SetCall} (h : Linked cfg o calls last) (i : Nat) (p : SetPhase) :
    Linked cfg o (calls.modify i fun c => { c with phase := p }) last := by
  induction calls generalizing o i with
  | nil => simpa using h
  | cons d calls ih =>
    cases i with
    | zero => exact h
    | succ i => exact ⟨h.1, ih h.2 i⟩

/-- The calls that did not reject leave the same effective settings as all of them, if those that did are
changeless. -/
theorem current_unrejected (h : Linked cfg o calls last) (hsame : current cfg o = current cfg o')
    (hrejected : ∀ c ∈ calls, c.phase = .rejected → Changeless cfg c.before c.patch c.reset) :
    current cfg last = current cfg (unrejected cfg o' calls) := by
  induction calls generalizing o o' with
  | nil => exact h ▸ hsame
  | cons c calls ih =>
    obtain ⟨rfl, hrest⟩ := h
    refine ih hrest ?_ fun d hd => hrejected d (List.mem_cons_of_mem c hd)
    dsimp only
    split_ifs with hphase
    · exact (changeless_iff.mp (hrejected c List.mem_cons_self hphase)).trans hsame
    · exact current_applyPatch_congr hsame c.patch c.reset

structure Kept (cfg : Config) (first : Overlay) (w : Store) : Prop where
  linked : Linked cfg first w.calls w.overlay
  changeless : ∀ c ∈ w.calls, c.phase = .unlinking ∨ c.phase = .rejected → Changeless cfg c.before c.patch c.reset

theorem Kept.move {first : Overlay} {w : Store} {i : Nat} {p : SetPhase} {disk : Disk} (h : Kept cfg first w)
    (hp : p = .unlinking ∨ p = .rejected → ∀ c ∈ w.calls[i]?, Changeless cfg c.before c.patch c.reset) :
    Kept cfg first (w.move i p disk) where
  linked := h.linked.move i p
  changeless c hc hphase := by
    obtain ⟨j, hj⟩ := List.mem_iff_getElem?.mp hc
    rw [Store.getElem?_move] at hj
    obtain ⟨d, hd, rfl⟩ := Option.map_eq_some_iff.mp hj
    dsimp only at hphase ⊢
    split_ifs at hphase with hij
    · exact hp hphase d (hij ▸ hd)
    · exact h.changeless d (List.mem_of_getElem? hd) hphase

variable {first : Overlay} {w : Store}

theorem Kept.call (h : Kept cfg first w) (patch : Overlay) (reset : List SettingKey) :
    Kept cfg first (w.call cfg patch reset) where
  linked := h.linked.concat rfl
  changeless c hc hphase := by
    obtain hc | hc := List.mem_append.mp hc
    · exact h.changeless c hc hphase
    · obtain rfl := List.mem_singleton.mp hc
      obtain hphase | hphase := hphase <;> cases hphase

variable {t : Store} {a : Action}

theorem move_of_stepCall {i : Nat} (hstep : stepCall cfg encode w i c a = some t) : ∃ p disk, t = w.move i p disk ∧
      (p = .unlinking ∨ p = .rejected → c.phase = .unlinking ∨ ∃ k, a = .fail k) := by
  cases a with
  | set patch reset => cases hstep
  | mkdir k | openTmp k =>
    obtain ⟨-, hgo⟩ := Option.ite_none_right_eq_some.mp hstep
    cases hgo
    exact ⟨_, _, rfl, by simp⟩
  | write k count =>
    cases hp : c.phase with
    | writing n offset =>
      simp only [stepCall, hp, Option.some.injEq] at hstep
      exact ⟨_, _, hstep.symm, by simp⟩
    | making | opening | moving | unlinking | resolved | rejected => simp [stepCall, hp] at hstep
  | close k =>
    cases hp : c.phase with
    | writing n offset =>
      simp only [stepCall, hp] at hstep
      obtain ⟨-, hgo⟩ := Option.ite_none_right_eq_some.mp hstep
      cases hgo
      exact ⟨_, _, rfl, by simp⟩
    | making | opening | moving | unlinking | resolved | rejected => simp [stepCall, hp] at hstep
  | rename k =>
    obtain ⟨-, hgo⟩ := Option.ite_none_right_eq_some.mp hstep
    obtain ⟨disk, -, rfl⟩ := Option.map_eq_some_iff.mp hgo
    exact ⟨_, _, rfl, by simp⟩
  | fail k =>
    cases hp : c.phase with
    | making | opening | writing | moving =>
      simp only [stepCall, hp, Option.some.injEq] at hstep
      exact ⟨_, _, hstep.symm, fun _ => .inr ⟨k, rfl⟩⟩
    | unlinking | resolved | rejected => simp [stepCall, hp] at hstep
  | unlink k fails =>
    obtain ⟨hp, hgo⟩ := Option.ite_none_right_eq_some.mp hstep
    cases hgo
    exact ⟨_, _, rfl, fun _ => .inl hp⟩

theorem Kept.step (h : Kept cfg first w) (hharmless : Harmless cfg w a) (hstep : step cfg encode w a = some t) :
    Kept cfg first t := by
  cases a with
  | set patch reset =>
    cases hstep
    exact h.call patch reset
  | mkdir i | openTmp i | write i | close i | rename i | fail i | unlink i =>
    obtain ⟨c, hc, hgo⟩ := Option.bind_eq_some_iff.mp hstep
    obtain ⟨p, disk, rfl, hends⟩ := move_of_stepCall hgo
    refine h.move fun hp d hd => ?_
    obtain hp | ⟨k, hk⟩ := hends hp
    · obtain rfl := Option.some_injective _ (hc.symm.trans hd)
      exact h.changeless c (List.mem_of_getElem? hc) (.inl hp)
    · first
        | exact hharmless d hd
        | cases hk

/-! ### Agreement -/

def Store.Settled (w : Store) : Prop := ∀ c ∈ w.calls, c.phase.settled = true

def Store.LastResolved (w : Store) : Prop := ∃ c ∈ w.calls.getLast?, c.phase = .resolved

/-- The file is never a mix: it is as it was, or what a call wrote. -/
def Store.Unmixed (cfg : Config) (encode : Overlay → List UInt8) (first : Option (List UInt8)) (w : Store) : Prop :=
  w.disk.text = first ∨ ∃ c ∈ w.calls, c.phase = .resolved ∧ w.disk.text = some (encode (c.after cfg))

instance (w : Store) : Decidable w.Settled := inferInstanceAs (Decidable (∀ c ∈ w.calls, _ = true))

instance (w : Store) : Decidable w.LastResolved := inferInstanceAs (Decidable (∃ c ∈ w.calls.getLast?, _ = _))

instance (cfg : Config) (encode : Overlay → List UInt8) (first : Option (List UInt8)) (w : Store) :
    Decidable (w.Unmixed cfg encode first) :=
  inferInstanceAs (Decidable (_ = _ ∨ ∃ c ∈ w.calls, _ = _ ∧ _ = _))

theorem Held.start {w : Store} (h : w.calls = []) : Held cfg encode w.disk.text w where
  last i c hc := by simp [h] at hc
  sole i p hp := by simp [Store.phase?, h] at hp
  written i c hc := by simp [h] at hc
  text := .inl ⟨rfl, fun j => by simp [Store.phase?, h]⟩

theorem Kept.start {w : Store} (h : w.calls = []) : Kept cfg w.overlay w where
  linked := by rw [h]; rfl
  changeless c hc := by simp [h] at hc

theorem Held.unmixed {first : Option (List UInt8)} (h : Held cfg encode first w) : w.Unmixed cfg encode first := by
  obtain ⟨hfirst, -⟩ | ⟨i, c, hc, hphase, -, htext⟩ := h.text
  · exact .inl hfirst
  · exact .inr ⟨c, List.mem_of_getElem? hc, hphase, htext⟩

theorem Held.agree {first : Option (List UInt8)} (h : Held cfg encode first w) (hlast : w.LastResolved) :
    w.disk.text = some (encode w.overlay) := by
  obtain ⟨d, hd, hres⟩ := hlast
  rw [Option.mem_def, List.getLast?_eq_getElem?] at hd
  have hphase : w.phase? (w.calls.length - 1) = some .resolved := by rw [Store.phase?, hd, ← hres]; rfl
  obtain ⟨-, hnone⟩ | ⟨i, c, hc, -, hlater, htext⟩ := h.text
  · exact absurd hphase (hnone _)
  · have hlt := (List.getElem?_eq_some_iff.mp hc).1
    have hi : ¬ i < w.calls.length - 1 := fun hi => hlater _ hi hphase
    rw [htext, h.last i c hc (by omega)]

/-- File and memory. When each call opens the temporary file alone, the file is never a mix, and it holds the overlay
in memory once the last call has resolved. When only calls fail that changed no effective setting, a call that
rejects leaves the effective settings as it found them, and they are those of the other calls. After every `set` no
override equals what `.env` says, and what is neither patched nor reset is unchanged. -/
theorem settings_on_disk {w : Store} (h : w.calls = []) : (∀ t, Runs.Run (step cfg encode) Exclusive w t →
      t.Unmixed cfg encode w.disk.text ∧ (t.LastResolved → t.disk.text = some (encode t.overlay))) ∧
    (∀ t, Runs.Run (step cfg encode) (Harmless cfg) w t →
      (∀ c ∈ t.calls, c.phase = .rejected → current cfg (c.after cfg) = current cfg c.before) ∧
        current cfg t.overlay = current cfg (unrejected cfg w.overlay t.calls)) ∧
    ∀ s t patch reset k, step cfg encode s (.set patch reset) = some t →
      t.overlay.find? k ≠ some (defaultsFrom cfg k) ∧ (k ∈ reset → t.overlay.find? k = none) ∧
        (patch.find? k = none → k ∉ reset → s.overlay.find? k ≠ some (defaultsFrom cfg k) →
          t.overlay.find? k = s.overlay.find? k) := by
  refine ⟨fun t hrun => ?_, fun t hrun => ?_, fun s t patch reset k hstep => ?_⟩
  · have hheld : Held cfg encode w.disk.text t :=
      hrun.invariant (fun _ _ _ hm hC hstep => hm.step hC hstep) (.start h)
    exact ⟨hheld.unmixed, hheld.agree⟩
  · have hkept : Kept cfg w.overlay t :=
      hrun.invariant (fun _ _ _ hm hC hstep => hm.step hC hstep) (.start h)
    refine ⟨fun c hc hphase => changeless_iff.mp (hkept.changeless c hc (.inr hphase)), ?_⟩
    exact current_unrejected hkept.linked rfl fun c hc hphase => hkept.changeless c hc (.inr hphase)
  · cases hstep
    exact ⟨(applyPatch_absent s.overlay patch reset k).1, (applyPatch_absent s.overlay patch reset k).2,
      applyPatch_unchanged⟩

/-! ### Calls that overlap -/

def SettingKey.text : SettingKey → String
  | .deviceAllowlist => "deviceAllowlist"
  | .notifyDelayMs => "notifyDelayMs"
  | .submitKeys => "submitKeys"
  | .readLines => "readLines"
  | .autoSettleDays => "autoSettleDays"

/-- `JSON.stringify` of a value, where numbers are integers and strings need no escapes. -/
def Setting.plainText : Setting → List Char
  | .deviceAllowlist value | .submitKeys value =>
    if value.isEmpty then "[]".toList
    else "[\n    ".toList ++
      List.intercalate ",\n    ".toList (value.map fun s => '"' :: s.toList ++ ['"']) ++ "\n  ]".toList
  | .notifyDelayMs value | .readLines value | .autoSettleDays value => (toString value.num).toList

/-- `JSON.stringify(overlay, null, 2)`, where it is ASCII. -/
def plainText (overlay : Overlay) : List UInt8 :=
  let rows := overlay.rows.map fun s => '"' :: s.key.text.toList ++ "\": ".toList ++ s.plainText
  let text := if rows.isEmpty then "\x7b\x7d".toList
    else "\x7b\n  ".toList ++ List.intercalate ",\n  ".toList rows ++ "\n\x7d".toList
  text.map fun c => UInt8.ofNat c.toNat

def sampleConfig : Config where
  deviceAllowlist := ["phone"]
  notifyDelayMs := 30000
  submitKeys := ["Enter"]
  readLines := 200
  autoSettleDays := none

def sampleStore : Store where
  overlay := .ofList [.deviceAllowlist ["phone", "lost"]]
  disk :=
    { inodes := [plainText (.ofList [.deviceAllowlist ["phone", "lost"]])], file := some 0, tmp := none
      placed := by decide +kernel
      apart := by decide +kernel }

def saves (i : Nat) : List Action := [.openTmp i, .write i 1000, .close i, .rename i]

/-- One call asks for more lines, the next takes the second phone off the list, and writes first. -/
def revokedFirst : List Action :=
  [.set (.ofList [.readLines 400]) [], .set (.ofList [.deviceAllowlist ["phone"]]) [], .mkdir 0, .mkdir 1] ++
    saves 1 ++ saves 0

/-- One call writes into the file that the next has put in place. -/
def writtenInto : List Action :=
  [.set (.ofList [.deviceAllowlist ["phone"]]) [], .set (.ofList [.readLines 400, .notifyDelayMs 5]) [], .mkdir 0,
    .mkdir 1, .openTmp 0] ++ saves 1 ++ [.write 0 1000, .close 0, .fail 0, .unlink 0 true]

/-- A call takes the second phone off the list, and cannot write. -/
def unwritten : List Action := [.set (.ofList [.deviceAllowlist ["phone"]]) [], .fail 0]

/-- All settle, the last call wrote, and the file still lists the second phone; or it is a mix; or a call rejects and
the settings are changed. -/
theorem overlapping_sets_diverge : sampleStore.calls = [] ∧
    (∃ t, Runs.Run (step sampleConfig plainText) (fun _ _ => True) sampleStore t ∧
      t.Settled ∧ t.LastResolved ∧ t.disk.text ≠ some (plainText t.overlay)) ∧
    (∃ t, Runs.Run (step sampleConfig plainText) (fun _ _ => True) sampleStore t ∧
      t.Settled ∧ ¬ t.Unmixed sampleConfig plainText sampleStore.disk.text) ∧
    ∃ t, Runs.Run (step sampleConfig plainText) (fun _ _ => True) sampleStore t ∧
      (∀ c ∈ t.calls, c.phase = .rejected) ∧
      current sampleConfig t.overlay .deviceAllowlist ≠
        current sampleConfig sampleStore.overlay .deviceAllowlist := by
  have hrevoked : (Runs.exec (step sampleConfig plainText) (fun _ _ => True) sampleStore revokedFirst).any
      (fun t => t.Settled ∧ t.LastResolved ∧ t.disk.text ≠ some (plainText t.overlay)) = true := by decide +kernel
  have hmixed : (Runs.exec (step sampleConfig plainText) (fun _ _ => True) sampleStore writtenInto).any
      (fun t => t.Settled ∧ ¬ t.Unmixed sampleConfig plainText sampleStore.disk.text) = true := by decide +kernel
  have hunwritten : (Runs.exec (step sampleConfig plainText) (fun _ _ => True) sampleStore unwritten).any
      (fun t => (∀ c ∈ t.calls, c.phase = .rejected) ∧ current sampleConfig t.overlay .deviceAllowlist ≠
          current sampleConfig sampleStore.overlay .deviceAllowlist) = true := by decide +kernel
  obtain ⟨t, hrun, ht⟩ := Runs.exists_run_of_exec hrevoked
  obtain ⟨m, hrun', hm⟩ := Runs.exists_run_of_exec hmixed
  obtain ⟨r, hrun'', hr⟩ := Runs.exists_run_of_exec hunwritten
  exact ⟨rfl, ⟨t, hrun, of_decide_eq_true ht⟩, ⟨m, hrun', of_decide_eq_true hm⟩, r, hrun'', of_decide_eq_true hr⟩

/-- Calls that wait for each other; one of them asks for what holds, and fails. -/
def oneByOne : List Action :=
  [.set (.ofList [.readLines 400]) [], .mkdir 0] ++ saves 0 ++ [.set (.ofList [.readLines 400]) [], .fail 1] ++
    [.set (.ofList [.deviceAllowlist ["phone"]]) [], .mkdir 2] ++ saves 2

theorem settings_on_disk_one_by_one :
    (∃ t, Runs.Run (step sampleConfig plainText) Exclusive sampleStore t ∧ t.LastResolved ∧
      t.disk.text = some (plainText t.overlay)) ∧
    (∃ t, Runs.Run (step sampleConfig plainText) (Harmless sampleConfig) sampleStore t ∧ t.LastResolved ∧
      current sampleConfig t.overlay = current sampleConfig (unrejected sampleConfig sampleStore.overlay t.calls)) ∧
    ∃ t, step sampleConfig plainText sampleStore (.set (.ofList [.deviceAllowlist ["phone"]]) []) = some t ∧
      t.overlay.find? .deviceAllowlist ≠ some (.deviceAllowlist ["phone"]) := by
  have hexclusive : (Runs.exec (step sampleConfig plainText) Exclusive sampleStore oneByOne).any
      (fun t => t.LastResolved) = true := by decide +kernel
  have hharmless : (Runs.exec (step sampleConfig plainText) (Harmless sampleConfig) sampleStore oneByOne).any
      (fun t => t.LastResolved) = true := by decide +kernel
  obtain ⟨t, hrun, ht⟩ := Runs.exists_run_of_exec hexclusive
  obtain ⟨m, hrun', hm⟩ := Runs.exists_run_of_exec hharmless
  obtain ⟨hfile, hmemory, hset⟩ := @settings_on_disk sampleConfig plainText sampleStore rfl
  have hlast : t.LastResolved := of_decide_eq_true ht
  exact ⟨⟨t, hrun, hlast, (hfile t hrun).2 hlast⟩, ⟨m, hrun', of_decide_eq_true hm, (hmemory m hrun').2⟩,
    _, rfl, (hset sampleStore _ _ [] .deviceAllowlist rfl).1⟩

end Sightr.RuntimeSettings
