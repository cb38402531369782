import Mathlib.Algebra.Order.Ring.Int
import Sightr.Lib.Runs

/-!
# The lock's credential store on disk

The credentials of `createLockStore` of `bridge/lock.ts`: a call changes the memory at once and queues a write of the
file with what the memory holds then; the writes run one after another, whether the ones before them went well or not.
A call rejects when its write does. The file is what `JSON.parse` and base64url make of it.
-/

namespace Sightr

structure StoredCredential where
  id : String
  publicKey : List UInt8
  counter : Int
  name : String
  addedAt : Int
  deriving DecidableEq

/-- An entry of the file; a field is absent where the file's value has another type. -/
structure FileCredential where
  id : Option String
  publicKey : Option (List UInt8)
  counter : Option Int
  name : Option String
  addedAt : Option Int
  deriving DecidableEq

inductive LockFile
  | absent
  | corrupt
  | holds (credentials : List FileCredential)
  deriving DecidableEq

namespace LockStore

def FileCredential.load (c : FileCredential) : Option StoredCredential := do
  let id ← c.id
  let publicKey ← c.publicKey
  let name ← c.name
  return { id, publicKey, counter := c.counter.getD 0, name, addedAt := c.addedAt.getD 0 }

def load : LockFile → List StoredCredential
  | .holds credentials => credentials.filterMap FileCredential.load
  | _ => []

def saved (creds : List StoredCredential) : LockFile :=
  .holds (creds.map fun c => ⟨some c.id, some c.publicKey, some c.counter, some c.name, some c.addedAt⟩)

inductive Op
  | addCredential (c : StoredCredential)
  | removeCredential (id : String)
  | updateCounter (id : String) (counter : Int)
  | clearAll
  deriving DecidableEq

def hasId (creds : List StoredCredential) (id : String) : Bool := creds.any (·.id = id)

/-- The first credential with the id gets the counter. -/
def setCounter (id : String) (counter : Int) : List StoredCredential → List StoredCredential
  | [] => []
  | c :: rest => if c.id = id then { c with counter } :: rest else c :: setCounter id counter rest

def effect (creds : List StoredCredential) : Op → List StoredCredential
  | .addCredential c => if hasId creds c.id then creds else creds ++ [c]
  | .removeCredential id => creds.filter (·.id ≠ id)
  | .updateCounter id counter => setCounter id counter creds
  | .clearAll => []

/-- A queued write: whose it is, what it leaves of the file, and whether its call changed the memory. -/
structure Write where
  call : Nat
  leaves : LockFile
  changed : Bool
  deriving DecidableEq

structure Call where
  op : Op
  /-- Resolved or rejected; none while the call waits for its write. -/
  outcome : Option Bool
  deriving DecidableEq

end LockStore

structure LockStore where
  loaded : List StoredCredential
  creds : List StoredCredential
  file : LockFile
  saveChain : List LockStore.Write
  calls : List LockStore.Call
  deriving DecidableEq

namespace LockStore

def create (file : LockFile) (setAside : Bool) : LockStore :=
  ⟨load file, load file, if file = .corrupt ∧ setAside then .absent else file, [], []⟩

inductive WriteEnd
  | ok
  /-- The write, the rename or the unlink failed: the file is what it was. -/
  | failed
  /-- The file was renamed into place, and `chmod` failed. -/
  | chmodFailed
  deriving DecidableEq

inductive Action
  | call (op : Op)
  | written (ends : WriteEnd)

variable (w : LockStore) (op : Op)

/-- The memory changes, and a write with what it holds now is queued. -/
def enqueue (leaves : LockFile) : LockStore :=
  { w with
    creds := effect w.creds op
    saveChain := w.saveChain ++ [⟨w.calls.length, leaves, effect w.creds op ≠ w.creds⟩]
    calls := w.calls ++ [⟨op, none⟩] }

def answer (ok : Bool) : LockStore := { w with calls := w.calls ++ [⟨op, some ok⟩] }

def call : LockStore :=
  match op with
  | .addCredential c =>
    if hasId w.creds c.id then w.answer op false else w.enqueue op (saved (effect w.creds op))
  | .removeCredential _ =>
    w.enqueue op (if (effect w.creds op).isEmpty then .absent else saved (effect w.creds op))
  | .updateCounter id _ =>
    if hasId w.creds id then w.enqueue op (saved (effect w.creds op)) else w.answer op true
  | .clearAll => w.enqueue op .absent

def settle (i : Nat) (ok : Bool) : LockStore :=
  { w with calls := w.calls.modify i fun call => { call with outcome := some ok } }

/-- The next write of the chain ends, and with it its call. -/
def written (ends : WriteEnd) : Option LockStore :=
  match w.saveChain with
  | [] => none
  | write :: rest =>
    match ends with
    | .ok => some (settle { w with file := write.leaves, saveChain := rest } write.call true)
    | .failed => some (settle { w with saveChain := rest } write.call false)
    | .chmodFailed =>
      if write.leaves = .absent then none
      else some (settle { w with file := write.leaves, saveChain := rest } write.call false)

def step : Action → Option LockStore
  | .call op => some (w.call op)
  | .written ends => w.written ends

def harmless : Action → Bool
  | .written ends => ends = .ok || w.saveChain.head?.all fun write => !write.changed
  | .call _ => true

/-- The memory is as if the calls that rejected had not been made, and once every call is over the file holds it. -/
structure Agrees : Prop where
  memory : w.creds = (w.calls.filter (·.outcome ≠ some false)).foldl (fun creds call => effect creds call.op) w.loaded
  durable : w.saveChain = [] → load w.file = w.creds

/-! ### Files -/

theorem load_saved (creds : List StoredCredential) : load (saved creds) = creds := by
  change (creds.map _).filterMap FileCredential.load = creds
  rw [List.filterMap_map]
  exact List.filterMap_some

theorem setCounter_of_not_hasId {creds : List StoredCredential} {id : String} (h : hasId creds id = false)
    (counter : Int) : setCounter id counter creds = creds := by
  induction creds with
  | nil => rfl
  | cons c rest ih =>
    unfold hasId at h
    rw [List.any_cons, Bool.or_eq_false_iff, decide_eq_false_iff_not] at h
    rw [setCounter, if_neg h.1, ih h.2]

/-! ### What the writes leave -/

/-- The file's credentials after each write of the chain: a write whose call changed nothing leaves what was there
before, and the last one leaves the memory's. -/
def Linked : List StoredCredential → List Write → List StoredCredential → Prop
  | now, [], creds => now = creds
  | now, write :: rest, creds =>
    (write.changed = false → load write.leaves = now) ∧ Linked (load write.leaves) rest creds

theorem Linked.append {now creds : List StoredCredential} {chain : List Write} (h : Linked now chain creds)
    {write : Write} (hwrite : write.changed = false → load write.leaves = creds) :
    Linked now (chain ++ [write]) (load write.leaves) := by
  induction chain generalizing now with
  | nil =>
    obtain rfl : now = creds := h
    exact ⟨hwrite, rfl⟩
  | cons first rest ih => exact ⟨h.1, ih h.2⟩

/-! ### What the calls make -/

def replay (creds : List StoredCredential) (ops : List Op) : List StoredCredential := ops.foldl effect creds

def Idle (loaded : List StoredCredential) (ops : List Op) (i : Nat) : Prop :=
  ∀ op, ops[i]? = some op → effect (replay loaded (ops.take i)) op = replay loaded (ops.take i)

structure Sound : Prop where
  creds : w.creds = replay w.loaded (w.calls.map Call.op)
  linked : Linked (load w.file) w.saveChain w.creds
  idle : ∀ write ∈ w.saveChain, write.changed = false → Idle w.loaded (w.calls.map Call.op) write.call
  rejected : ∀ i call, w.calls[i]? = some call → call.outcome = some false → Idle w.loaded (w.calls.map Call.op) i
  bound : ∀ write ∈ w.saveChain, write.call < w.calls.length

variable {w} {next : LockStore} {loaded creds : List StoredCredential} {ops : List Op} {i : Nat}

theorem Idle.append (h : Idle loaded ops i) (hi : i < ops.length) (op : Op) : Idle loaded (ops ++ [op]) i := by
  intro other hother
  rw [List.getElem?_append_left hi] at hother
  rw [List.take_append_of_le_length hi.le]
  exact h other hother

theorem Idle.last {op : Op} (h : effect (replay loaded ops) op = replay loaded ops) :
    Idle loaded (ops ++ [op]) ops.length := by
  intro other hother
  rw [List.getElem?_concat_length] at hother
  cases hother
  rw [List.take_left]
  exact h

theorem replay_append : replay loaded (ops ++ [op]) = effect (replay loaded ops) op := List.foldl_append

section

variable (h : w.Sound)
include h

private theorem Sound.push (op : Op) (outcome : Option Bool) {chain : List Write}
    (hrejected : outcome = some false → effect w.creds op = w.creds)
    (hchain : chain = w.saveChain ∧ effect w.creds op = w.creds ∨ ∃ leaves, load leaves = effect w.creds op ∧
        chain = w.saveChain ++ [⟨w.calls.length, leaves, effect w.creds op ≠ w.creds⟩]) :
    Sound { w with creds := effect w.creds op, saveChain := chain, calls := w.calls ++ [⟨op, outcome⟩] } := by
  have hops : (w.calls ++ [(⟨op, outcome⟩ : Call)]).map Call.op = w.calls.map Call.op ++ [op] := List.map_append
  have hlength : (w.calls.map Call.op).length = w.calls.length := List.length_map ..
  have hlast (hsame : effect w.creds op = w.creds) : Idle w.loaded (w.calls.map Call.op ++ [op]) w.calls.length := by
    rw [h.creds] at hsame
    exact hlength ▸ Idle.last hsame
  refine ⟨?_, ?_, fun write hwrite hsame => ?_, fun j call hcall hno => ?_, fun write hwrite => ?_⟩
  · change effect w.creds op = replay w.loaded ((w.calls ++ [(⟨op, outcome⟩ : Call)]).map Call.op)
    rw [hops, replay_append, ← h.creds]
  · obtain ⟨rfl, hsame⟩ | ⟨leaves, hleaves, rfl⟩ := hchain
    · change Linked (load w.file) w.saveChain (effect w.creds op)
      rw [hsame]
      exact h.linked
    · change Linked (load w.file) (w.saveChain ++ _) (effect w.creds op)
      rw [← hleaves]
      refine h.linked.append fun hsame => ?_
      simpa [hleaves] using hsame
  · change Idle w.loaded ((w.calls ++ [(⟨op, outcome⟩ : Call)]).map Call.op) write.call
    rw [hops]
    obtain ⟨rfl, -⟩ | ⟨leaves, -, rfl⟩ := hchain
    · exact (h.idle write hwrite hsame).append (hlength ▸ h.bound write hwrite) op
    · rcases List.mem_append.mp hwrite with hold | hnew
      · exact (h.idle write hold hsame).append (hlength ▸ h.bound write hold) op
      · obtain rfl := List.mem_singleton.mp hnew
        exact hlast (by simpa using hsame)
  · change Idle w.loaded ((w.calls ++ [(⟨op, outcome⟩ : Call)]).map Call.op) j
    rw [hops]
    by_cases hj : j < w.calls.length
    · rw [List.getElem?_append_left hj] at hcall
      exact (h.rejected j call hcall hno).append (hlength ▸ hj) op
    · have hj' : j = w.calls.length := by
        have hlt := (List.getElem?_eq_some_iff.mp hcall).1
        rw [List.length_append, List.length_singleton] at hlt
        omega
      subst hj'
      rw [List.getElem?_concat_length] at hcall
      cases hcall
      exact hlast (hrejected hno)
  · change write.call < (w.calls ++ [(⟨op, outcome⟩ : Call)]).length
    rw [List.length_append, List.length_singleton]
    obtain ⟨rfl, -⟩ | ⟨leaves, -, rfl⟩ := hchain
    · exact (h.bound write hwrite).trans (Nat.lt_succ_self _)
    · rcases List.mem_append.mp hwrite with hold | hnew
      · exact (h.bound write hold).trans (Nat.lt_succ_self _)
      · obtain rfl := List.mem_singleton.mp hnew
        exact Nat.lt_succ_self _

private theorem Sound.enqueue (op : Op) {leaves : LockFile} (hleaves : load leaves = effect w.creds op) :
    (w.enqueue op leaves).Sound :=
  h.push op none nofun (.inr ⟨leaves, hleaves, rfl⟩)

private theorem Sound.answer {op : Op} (ok : Bool) (hsame : effect w.creds op = w.creds) : (w.answer op ok).Sound := by
  have hpush := h.push op (some ok) (fun _ => hsame) (.inl ⟨rfl, hsame⟩)
  rw [hsame] at hpush
  exact hpush

theorem Sound.call (op : Op) : (w.call op).Sound := by
  cases op with
  | addCredential c =>
    simp only [LockStore.call]
    split_ifs with hknown
    · exact h.answer false (if_pos hknown)
    · exact h.enqueue _ (load_saved _)
  | removeCredential id =>
    refine h.enqueue _ ?_
    split_ifs with hempty
    · exact (List.isEmpty_iff.mp hempty).symm
    · exact load_saved _
  | updateCounter id counter =>
    simp only [LockStore.call]
    split_ifs with hknown
    · exact h.enqueue _ (load_saved _)
    · exact h.answer true (setCounter_of_not_hasId (by simpa using hknown) counter)
  | clearAll => exact h.enqueue _ rfl

private theorem Sound.written {ends : WriteEnd} (hharmless : w.harmless (.written ends) = true)
    (hstep : w.written ends = some next) : next.Sound := by
  unfold LockStore.written at hstep
  cases hchain : w.saveChain with
  | nil =>
    rw [hchain] at hstep
    cases hstep
  | cons write rest =>
    rw [hchain] at hstep
    have hmem : write ∈ w.saveChain := hchain ▸ List.mem_cons_self ..
    have hrest (other : Write) (hother : other ∈ rest) : other ∈ w.saveChain := hchain ▸ List.mem_cons_of_mem _ hother
    have hlinked := h.linked
    rw [hchain] at hlinked
    -- What is left when the call is settled, with the file as it was or as the write leaves it.
    have hsettle (file : LockFile) (ok : Bool) (hfile : load file = load write.leaves)
        (hidle : ok = false → write.changed = false) :
        (settle { w with file, saveChain := rest } write.call ok).Sound := by
      have hops : (w.calls.modify write.call fun call => { call with outcome := some ok }).map Call.op =
          w.calls.map Call.op := by
        refine List.ext_getElem? fun j => ?_
        rw [List.getElem?_map, List.getElem?_map, List.getElem?_modify]
        split_ifs
        · cases w.calls[j]? <;> rfl
        · cases w.calls[j]? <;> rfl
      refine ⟨?_, ?_, fun other hother hsame => ?_, fun j call hcall hno => ?_, fun other hother => ?_⟩
      · change w.creds = replay w.loaded ((w.calls.modify write.call _).map Call.op)
        rw [hops]
        exact h.creds
      · change Linked (load file) rest w.creds
        rw [hfile]
        exact hlinked.2
      · change Idle w.loaded ((w.calls.modify write.call _).map Call.op) other.call
        rw [hops]
        exact h.idle other (hrest other hother) hsame
      · change Idle w.loaded ((w.calls.modify write.call _).map Call.op) j
        rw [hops]
        change (w.calls.modify write.call _)[j]? = some call at hcall
        rw [List.getElem?_modify] at hcall
        obtain ⟨old, hold, hcall⟩ := Option.map_eq_some_iff.mp hcall
        split_ifs at hcall with hj
        · obtain rfl := hcall
          exact hj ▸ h.idle write hmem (hidle (Option.some.inj hno))
        · obtain rfl := hcall
          exact h.rejected j old hold hno
      · change other.call < (w.calls.modify write.call _).length
        rw [List.length_modify]
        exact h.bound other (hrest other hother)
    have hunchanged (hends : ends ≠ .ok) : write.changed = false := by
      simpa [harmless, hchain, hends] using hharmless
    cases ends with
    | ok =>
      cases hstep
      exact hsettle write.leaves true rfl nofun
    | failed =>
      cases hstep
      have hsame := hunchanged (by decide)
      exact hsettle w.file false (hlinked.1 hsame).symm fun _ => hsame
    | chmodFailed =>
      dsimp only at hstep
      split_ifs at hstep
      cases hstep
      exact hsettle write.leaves false rfl fun _ => hunchanged (by decide)

theorem Sound.step {action : Action} (hharmless : w.harmless action = true)
    (hstep : w.step action = some next) : next.Sound := by
  cases action with
  | call op =>
    cases hstep
    exact h.call op
  | written ends => exact h.written hharmless hstep

end

theorem Sound.create (file : LockFile) (setAside : Bool) : (create file setAside).Sound where
  creds := rfl
  linked := by
    change load (if file = .corrupt ∧ setAside then .absent else file) = load file
    split_ifs with hcorrupt
    · rw [hcorrupt.1]
      rfl
    · rfl
  idle write h := by cases h
  rejected i call h := by cases h
  bound write h := by cases h

theorem replay_filter {calls : List Call} (p : Call → Bool)
    (h : ∀ i call, calls[i]? = some call → p call = false → Idle loaded (calls.map Call.op) i) :
    (calls.filter p).foldl (fun creds call => effect creds call.op) loaded = replay loaded (calls.map Call.op) := by
  induction calls generalizing loaded with
  | nil => rfl
  | cons call rest ih =>
    have hrest : ∀ i other, rest[i]? = some other → p other = false →
        Idle (effect loaded call.op) (rest.map Call.op) i := fun i other hother hp => h (i + 1) other hother hp
    rw [List.filter_cons]
    split_ifs with hp
    · exact ih hrest
    · have hidle : effect loaded call.op = loaded := h 0 call rfl (by simpa using hp) call.op rfl
      rw [hidle] at hrest
      rw [ih hrest, List.map_cons]
      exact congrArg (replay · (rest.map Call.op)) hidle.symm

/-- In every run of concurrent calls in which no write fails whose call changed the memory: the memory is as
if the calls that rejected had not been made, and once every call is over a restart finds exactly the memory's
credentials. -/
theorem agrees_of_run {file : LockFile} {setAside : Bool}
    (hrun : Runs.Run LockStore.step (fun w action => w.harmless action = true) (create file setAside) w) :
    w.Agrees := by
  have h : w.Sound :=
    hrun.invariant (P := Sound) (fun _ _ _ h hharmless hstep => h.step hharmless hstep) (Sound.create file setAside)
  refine ⟨?_, fun hchain => ?_⟩
  · rw [replay_filter _ fun i call hcall hno => h.rejected i call hcall (by simpa using hno)]
    exact h.creds
  · have hlinked := h.linked
    rw [hchain] at hlinked
    exact hlinked

private def phone : StoredCredential := ⟨"device", [4], 0, "Phone", 1⟩

/-- A credential is registered and counted while a removal of an unknown one fails. -/
theorem agrees_of_run_counted : ∃ w : LockStore, w.Agrees ∧ load w.file = [{ phone with counter := 7 }] := by
  obtain ⟨w, hrun, hw⟩ := Runs.exists_run_of_exec
    (show (Runs.exec LockStore.step (fun w action => w.harmless action = true) (create .absent false)
      [.call (.addCredential phone), .call (.updateCounter "device" 7), .written .ok,
        .call (.removeCredential "other"),
        .written .ok, .written .failed]).any
      (fun w => load w.file = [{ phone with counter := 7 }]) = true by decide +kernel)
  exact ⟨w, agrees_of_run hrun, of_decide_eq_true hw⟩

/-- A registration whose rename failed is rejected; the memory has the credential, and a restart has not. -/
theorem failed_add_stays : ∃ w : LockStore,
    Runs.Run LockStore.step (fun _ _ => True) (create .absent false) w ∧ w.saveChain = [] ∧
      w.calls = [⟨.addCredential phone, some false⟩] ∧ w.creds = [phone] ∧ load w.file = [] ∧ ¬w.Agrees := by
  obtain ⟨w, hrun, hw⟩ := Runs.exists_run_of_exec
    (show (Runs.exec LockStore.step (fun _ _ => True) (create .absent false)
      [.call (.addCredential phone), .written .failed]).any
      (fun w => w = ⟨[], [phone], .absent, [], [⟨.addCredential phone, some false⟩]⟩) = true by decide +kernel)
  obtain rfl := of_decide_eq_true hw
  exact ⟨_, hrun, rfl, rfl, rfl, rfl, fun h => absurd (h.durable rfl) (by decide)⟩

end LockStore

end Sightr
