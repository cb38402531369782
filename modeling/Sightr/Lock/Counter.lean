import Sightr.Lib.Runs
import Sightr.Lib.Table

/-!
# The signature counters of the lock

`verifyGet` of `bridge/webauthn.ts`, the unlock route of `bridge/lock-routes.ts` and the credential store of
`bridge/lock.ts`. A registration, an unlock or a removal changes the store's memory at once and queues a write
of the lock file; the writes run one after another, and each may fail. An unlock with a new counter is answered
after its write, so it is accepted only if that write succeeded. The bridge may restart at any moment and then
reads the file.
-/

namespace Sightr

open Keyed

/-! ### Assertions -/

/-- What `parseAuthData` reads of an assertion's authenticator data. -/
structure ParsedAuthData where
  rpIdHash : List UInt8
  up : Bool
  uv : Bool
  counter : Nat
  deriving DecidableEq

/-- An assertion as the browser sent it, with the outcomes of the parts that parse and verify bytes. -/
structure Assertion where
  /-- `checkClientData` of the client data: its type, its challenge and its origin. -/
  clientData : Bool := true
  authData : Option ParsedAuthData
  signature : Bool := true
  deriving DecidableEq

/-- The counter the assertion proves, `some none` where the authenticator keeps none; `none` is a rejection. -/
def verifyGet (input : Assertion) (publicKey : List UInt8) (storedCounter : Nat) (rpIdHash : List UInt8) :
    Option (Option Nat) :=
  if !input.clientData then none
  else match input.authData with
    | none => none
    | some parsed =>
      if !parsed.up || !parsed.uv || parsed.rpIdHash ≠ rpIdHash || publicKey.length ≠ 65 || publicKey.head? ≠
        some 4 then
        none
      else if !input.signature then none
      else if parsed.counter = 0 then some none
      else if parsed.counter ≤ storedCounter then none
      else some (some parsed.counter)

theorem lt_of_verifyGet {input : Assertion} {publicKey rpIdHash : List UInt8} {stored counter : Nat}
    (h : verifyGet input publicKey stored rpIdHash = some (some counter)) : stored < counter := by
  unfold verifyGet at h
  split at h
  · cases h
  · split at h
    · cases h
    · rename_i parsed _
      split_ifs at h with _ _ hzero hle
      · cases Option.some.inj h
      · obtain rfl := Option.some.inj (Option.some.inj h)
        exact Nat.lt_of_not_le hle

/-! ### The store -/

structure LockCredential where
  id : String
  publicKey : List UInt8
  counter : Nat
  /-- Which registration made the credential, and the counter it was made with. -/
  registration : Nat
  registered : Nat
  deriving DecidableEq

/-- An accepted unlock, or one that waits for its write. -/
structure Unlock where
  registration : Nat
  registered : Nat
  /-- The counter stored when the assertion was verified. -/
  stored : Nat
  counter : Nat
  deriving DecidableEq

def LockCredential.unlock (c : LockCredential) (counter : Nat) : Unlock where
  registration := c.registration
  registered := c.registered
  stored := c.counter
  counter

/-- An unlock's counter is zero, or above both the stored one and the registered one. -/
def Unlock.Proved (u : Unlock) : Prop := u.counter ≠ 0 → u.stored < u.counter ∧ u.registered < u.counter

/-- A write of the lock file in the queue, with the unlock whose answer waits for it. -/
inductive LockWrite
  | save (credentials : Table LockCredential.id) (unlock : Option Unlock)
  | drop

def LockWrite.leaves : LockWrite → Table LockCredential.id
  | .save credentials _ => credentials
  | .drop => .empty

def LockWrite.unlock : LockWrite → Option Unlock
  | .save _ unlock => unlock
  | .drop => none

inductive WriteEnd
  | ok
  /-- The file is in place, but its mode could not be set. -/
  | modeFailed
  | failed
  deriving DecidableEq

structure LockWorld where
  /-- The credentials of the lock file; with no file there are none. -/
  file : Table LockCredential.id
  credentials : Table LockCredential.id
  saveChain : List LockWrite
  /-- The unlocks accepted so far, the latest last. -/
  accepted : List Unlock
  /-- How many credentials were registered so far. -/
  registrations : Nat

namespace LockWorld

def start : LockWorld where
  file := .empty
  credentials := .empty
  saveChain := []
  accepted := []
  registrations := 0

variable (w : LockWorld)

def enqueue (write : LockWrite) : LockWorld := { w with saveChain := w.saveChain ++ [write] }

/-- A verified registration; a credential that is there already is refused. -/
def addCredential (id : String) (publicKey : List UInt8) (counter : Nat) : Option LockWorld :=
  (w.credentials.insert? {
    id, publicKey, counter, registration := w.registrations, registered := counter }).map fun credentials =>
      ({ w with credentials, registrations := w.registrations + 1 } : LockWorld).enqueue (.save credentials none)

/-- The store's part of an unlock: the counter is stored, and the answer waits for the write. -/
def updateCounter (c : LockCredential) (counter : Nat) : LockWorld :=
  let credentials := w.credentials.set { c with counter }
  ({ w with credentials } : LockWorld).enqueue (.save credentials (some (c.unlock counter)))

def removeCredential (id : String) : LockWorld :=
  let credentials := w.credentials.filter (·.id ≠ id)
  ({ w with credentials } : LockWorld).enqueue (if credentials.rows.isEmpty then .drop else .save credentials none)

def clearAll : LockWorld := ({ w with credentials := .empty } : LockWorld).enqueue .drop

def unlockRoute (id : String) (input : Assertion) (rpIdHash : List UInt8) : LockWorld :=
  match w.credentials.find? id with
  | none => w
  | some c =>
    match verifyGet input c.publicKey c.counter rpIdHash with
    | none => w
    | some none => { w with accepted := w.accepted ++ [c.unlock 0] }
    | some (some counter) => w.updateCounter c counter

def written : WriteEnd → Option LockWorld
  | .ok => match w.saveChain with
    | [] => none
    | write :: rest => some { w with
        saveChain := rest
        file := write.leaves
        accepted := w.accepted ++ write.unlock.toList }
  | .modeFailed => match w.saveChain with
    | .save credentials _ :: rest => some { w with saveChain := rest, file := credentials }
    | _ => none
  | .failed => match w.saveChain with
    | [] => none
    | _ :: rest => some { w with saveChain := rest }

inductive Event
  | register (id : String) (publicKey : List UInt8) (counter : Nat)
  | unlock (id : String) (input : Assertion) (rpIdHash : List UInt8)
  | remove (id : String)
  | clearAll
  | written (ends : WriteEnd)
  /-- The bridge restarts and reads the file; the writes it had queued are lost. -/
  | reload
  deriving DecidableEq

def step : Event → Option LockWorld
  | .register id publicKey counter => w.addCredential id publicKey counter
  | .unlock id input rpIdHash => some (w.unlockRoute id input rpIdHash)
  | .remove id => some (w.removeCredential id)
  | .clearAll => some w.clearAll
  | .written ends => w.written ends
  | .reload => some { w with credentials := w.file, saveChain := [] }

/-! ### What every run keeps -/

/-- The unlocks accepted, and after them those that wait, in the order of their writes. -/
def unlocks : List Unlock := w.accepted ++ w.saveChain.filterMap LockWrite.unlock

/-- The credentials of the unlock's registration have a counter that is not below the unlock's. -/
def Covered (u : Unlock) (t : Table LockCredential.id) : Prop :=
  ∀ c ∈ t.rows, c.registration = u.registration → u.counter ≤ c.counter

/-- Credentials that registrations made, and counters that did not go below the registered ones. -/
structure Made (registrations : Nat) (t : Table LockCredential.id) : Prop where
  eq : ∀ c ∈ t.rows, ∀ d ∈ t.rows, c.registration = d.registration → c = d
  lt : ∀ c ∈ t.rows, c.registration < registrations
  registered_le : ∀ c ∈ t.rows, c.registered ≤ c.counter

/-- Of two unlocks of one registration with a counter each, the later has the greater counter. -/
def Above (u v : Unlock) : Prop :=
  u.registration = v.registration → u.counter ≠ 0 → v.counter ≠ 0 → u.counter < v.counter

structure Sound (w : LockWorld) : Prop where
  credentials : Made w.registrations w.credentials
  file : Made w.registrations w.file
  queued : ∀ k ∈ w.saveChain, Made w.registrations k.leaves
  lt : ∀ u ∈ w.unlocks, u.registration < w.registrations
  seen : ∀ u ∈ w.unlocks, Covered u w.credentials
  /-- The file and what is yet to be written have seen every accepted one. -/
  acceptedFile : ∀ u ∈ w.accepted, Covered u w.file
  acceptedQueued : ∀ u ∈ w.accepted, ∀ k ∈ w.saveChain, Covered u k.leaves
  /-- A write has seen the unlock that waits for it and those that wait for an earlier write. -/
  own : ∀ k ∈ w.saveChain, ∀ u ∈ k.unlock, Covered u k.leaves
  waiting : w.saveChain.Pairwise fun k k' => ∀ u ∈ k.unlock, Covered u k'.leaves
  above : w.unlocks.Pairwise Above
  proved : ∀ u ∈ w.unlocks, u.Proved

variable {w w' : LockWorld} {n : Nat} {t : Table LockCredential.id} {u : Unlock}

theorem covered_empty : Covered u .empty := fun _ hc => by simp at hc

theorem Covered.filter (h : Covered u t) (p : LockCredential → Bool) : Covered u (t.filter p) :=
  fun c hc => h c (List.mem_of_mem_filter hc)

theorem Made.empty : Made n .empty where
  eq := fun _ hc => by simp at hc
  lt := fun _ hc => by simp at hc
  registered_le := fun _ hc => by simp at hc

theorem Made.filter (h : Made n t) (p : LockCredential → Bool) : Made n (t.filter p) where
  eq := fun c hc d hd => h.eq c (List.mem_of_mem_filter hc) d (List.mem_of_mem_filter hd)
  lt := fun c hc => h.lt c (List.mem_of_mem_filter hc)
  registered_le := fun c hc => h.registered_le c (List.mem_of_mem_filter hc)

theorem Made.mono {m : Nat} (h : Made m t) (hmn : m ≤ n) : Made n t := { h with
  lt := fun c hc => Nat.lt_of_lt_of_le (h.lt c hc) hmn }

theorem mem_unlocks : u ∈ w.unlocks ↔ u ∈ w.accepted ∨ ∃ k ∈ w.saveChain, k.unlock = some u := by
  simp [unlocks, List.mem_filterMap]

variable {k : LockWrite}

theorem mem_unlocks_of_waiting (hk : k ∈ w.saveChain) (hu : u ∈ k.unlock) : u ∈ w.unlocks :=
  mem_unlocks.mpr (.inr ⟨k, hk, hu⟩)

/-! #### Changes of the memory -/

private theorem Sound.enqueue (h : w.Sound) (hn : w.registrations ≤ n) (hmade : Made n t) (hleaves : k.leaves = t)
    (hseen : ∀ u ∈ w.unlocks, Covered u t)
    (hnew : ∀ u ∈ k.unlock, u.registration < n ∧ Covered u t ∧ (∀ v ∈ w.unlocks, Above v u) ∧ u.Proved) :
    (({ w with credentials := t, registrations := n } : LockWorld).enqueue k).Sound := by
  have hunlocks : (({ w with credentials := t, registrations := n } : LockWorld).enqueue k).unlocks =
      w.unlocks ++ k.unlock.toList := by
    cases hk : k.unlock <;> simp [unlocks, LockWorld.enqueue, List.filterMap_append, hk]
  have hcase {v : Unlock} (hv : v ∈ w.unlocks ++ k.unlock.toList) : v ∈ w.unlocks ∨ v ∈ k.unlock := by
    simpa using hv
  constructor
  case credentials => exact hmade
  case file => exact h.file.mono hn
  case queued =>
    intro j hj
    rcases List.mem_append.mp hj with hj | hj
    · exact (h.queued j hj).mono hn
    · rw [List.mem_singleton.mp hj, hleaves]
      exact hmade
  case lt =>
    rw [hunlocks]
    intro v hv
    rcases hcase hv with hv | hv
    · exact Nat.lt_of_lt_of_le (h.lt v hv) hn
    · exact (hnew v hv).1
  case seen =>
    rw [hunlocks]
    intro v hv
    rcases hcase hv with hv | hv
    · exact hseen v hv
    · exact (hnew v hv).2.1
  case acceptedFile => exact h.acceptedFile
  case acceptedQueued =>
    intro v hv j hj
    rcases List.mem_append.mp hj with hj | hj
    · exact h.acceptedQueued v hv j hj
    · rw [List.mem_singleton.mp hj, hleaves]
      exact hseen v (mem_unlocks.mpr (.inl hv))
  case own =>
    intro j hj v hv
    rcases List.mem_append.mp hj with hj | hj
    · exact h.own j hj v hv
    · obtain rfl := List.mem_singleton.mp hj
      rw [hleaves]
      exact (hnew v hv).2.1
  case waiting =>
    refine List.pairwise_append.mpr ⟨h.waiting, List.pairwise_singleton _ _, fun j hj j' hj' v hv => ?_⟩
    rw [List.mem_singleton.mp hj', hleaves]
    exact hseen v (mem_unlocks_of_waiting hj hv)
  case above =>
    rw [hunlocks]
    refine List.pairwise_append.mpr ⟨h.above, ?_, fun v hv u hu => (hnew u (by simpa using hu)).2.2.1 v hv⟩
    cases k.unlock <;> simp
  case proved =>
    rw [hunlocks]
    intro v hv
    rcases hcase hv with hv | hv
    · exact h.proved v hv
    · exact (hnew v hv).2.2.2

variable {id : String} {counter : Nat}

private theorem Sound.addCredential (h : w.Sound) {publicKey : List UInt8}
    (hstep : w.addCredential id publicKey counter = some w') : w'.Sound := by
  obtain ⟨credentials, hinsert, rfl⟩ := Option.map_eq_some_iff.mp hstep
  have hmem {c : LockCredential} (hc : c ∈ credentials.rows) : c ∈ w.credentials.rows ∨
      c = { id, publicKey, counter, registration := w.registrations, registered := counter } := by
    rw [Table.rows_of_insert? hinsert] at hc
    simpa using hc
  refine h.enqueue (k := .save credentials none) (Nat.le_succ _) ⟨fun c hc d hd heq => ?_, fun c hc => ?_,
    fun c hc => ?_⟩ rfl (fun u hu c hc hreg => ?_) (fun u hu => by cases hu)
  · -- the new credential's registration is a new number
    rcases hmem hc with hc | rfl <;> rcases hmem hd with hd | rfl
    · exact h.credentials.eq c hc d hd heq
    · exact absurd heq (Nat.ne_of_lt (h.credentials.lt c hc))
    · exact absurd heq.symm (Nat.ne_of_lt (h.credentials.lt d hd))
    · rfl
  · rcases hmem hc with hc | rfl
    · exact Nat.lt_succ_of_lt (h.credentials.lt c hc)
    · exact Nat.lt_succ_self _
  · rcases hmem hc with hc | rfl
    · exact h.credentials.registered_le c hc
    · exact Nat.le_refl _
  · rcases hmem hc with hc | rfl
    · exact h.seen u hu c hc hreg
    · exact absurd hreg.symm (Nat.ne_of_lt (h.lt u hu))

variable {c : LockCredential}

private theorem Sound.updateCounter (h : w.Sound) (hc : c ∈ w.credentials.rows) (hlt : c.counter < counter) :
    (w.updateCounter c counter).Sound := by
  have hmem {d : LockCredential} (hd : d ∈ (w.credentials.set { c with counter }).rows) :
      d = { c with counter } ∨ d ∈ w.credentials.rows ∧ d.registration ≠ c.registration := by
    rcases Table.mem_set.mp hd with rfl | ⟨hd, hne⟩
    · exact .inl rfl
    · exact .inr ⟨hd, fun hreg => hne (by rw [h.credentials.eq d hd c hc hreg])⟩
  refine h.enqueue (k := .save (w.credentials.set { c with counter }) (some (c.unlock counter))) (Nat.le_refl _)
    ⟨fun d hd e he heq => ?_, fun d hd => ?_, fun d hd => ?_⟩ rfl (fun u hu d hd hreg => ?_) fun u hu => ?_
  · rcases hmem hd with rfl | ⟨hd, hdc⟩ <;> rcases hmem he with rfl | ⟨he, hec⟩
    · rfl
    · exact absurd heq.symm hec
    · exact absurd heq hdc
    · exact h.credentials.eq d hd e he heq
  · rcases hmem hd with rfl | ⟨hd, -⟩
    · exact h.credentials.lt c hc
    · exact h.credentials.lt d hd
  · rcases hmem hd with rfl | ⟨hd, -⟩
    · exact Nat.le_of_lt (Nat.lt_of_le_of_lt (h.credentials.registered_le c hc) hlt)
    · exact h.credentials.registered_le d hd
  · rcases hmem hd with rfl | ⟨hd, -⟩
    · exact Nat.le_of_lt (Nat.lt_of_le_of_lt (h.seen u hu c hc hreg) hlt)
    · exact h.seen u hu d hd hreg
  · cases hu
    refine ⟨h.credentials.lt c hc, fun d hd hreg => ?_, fun v hv hreg _ _ => ?_, fun _ => ⟨hlt, ?_⟩⟩
    · rcases hmem hd with rfl | ⟨-, hdc⟩
      · exact Nat.le_refl _
      · exact absurd hreg hdc
    · exact Nat.lt_of_le_of_lt (h.seen v hv c hc hreg.symm) hlt
    · exact Nat.lt_of_le_of_lt (h.credentials.registered_le c hc) hlt

private theorem Sound.removeCredential (h : w.Sound) (id : String) : (w.removeCredential id).Sound := by
  refine h.enqueue (Nat.le_refl _) (h.credentials.filter _) ?_ (fun u hu => (h.seen u hu).filter _) fun u hu => ?_
  · split
    · rename_i hempty
      exact (Table.ext (List.isEmpty_iff.mp hempty)).symm
    · rfl
  · split at hu <;> cases hu

private theorem Sound.clearAll (h : w.Sound) : w.clearAll.Sound :=
  h.enqueue (k := .drop) (Nat.le_refl _) .empty rfl (fun _ _ => covered_empty) fun u hu => by cases hu

/-! #### Unlocks and writes -/

section

variable (h : w.Sound)
include h

theorem Sound.acceptZero (hc : c ∈ w.credentials.rows) :
    ({ w with accepted := w.accepted ++ [c.unlock 0] } : LockWorld).Sound := by
  have hmem {v : Unlock} (hv : v ∈ ({ w with accepted := w.accepted ++ [c.unlock 0] } : LockWorld).unlocks) :
      v ∈ w.unlocks ∨ v = c.unlock 0 := by
    simp only [unlocks, List.mem_append, List.mem_singleton] at hv ⊢
    tauto
  have hcovered (s : Table LockCredential.id) : Covered (c.unlock 0) s := fun _ _ _ => Nat.zero_le _
  constructor
  case credentials => exact h.credentials
  case file => exact h.file
  case queued => exact h.queued
  case lt =>
    intro v hv
    rcases hmem hv with hv | rfl
    · exact h.lt v hv
    · exact h.credentials.lt c hc
  case seen =>
    intro v hv
    rcases hmem hv with hv | rfl
    · exact h.seen v hv
    · exact hcovered _
  case acceptedFile =>
    intro v hv
    rcases List.mem_append.mp hv with hv | hv
    · exact h.acceptedFile v hv
    · rw [List.mem_singleton.mp hv]
      exact hcovered _
  case acceptedQueued =>
    intro v hv k hk
    rcases List.mem_append.mp hv with hv | hv
    · exact h.acceptedQueued v hv k hk
    · rw [List.mem_singleton.mp hv]
      exact hcovered _
  case own => exact h.own
  case waiting => exact h.waiting
  case above =>
    obtain ⟨haccepted, hwaiting, hboth⟩ := List.pairwise_append.mp h.above
    refine List.pairwise_append.mpr ⟨List.pairwise_append.mpr ⟨haccepted, List.pairwise_singleton _ _, ?_⟩,
      hwaiting, fun v hv v' hv' => ?_⟩
    · intro v _ z hz _ _ hzero
      rw [List.mem_singleton.mp hz] at hzero
      exact absurd rfl hzero
    · rcases List.mem_append.mp hv with hv | hv
      · exact hboth v hv v' hv'
      · intro _ hzero
        rw [List.mem_singleton.mp hv] at hzero
        exact absurd rfl hzero
  case proved =>
    intro v hv
    rcases hmem hv with hv | rfl
    · exact h.proved v hv
    · exact fun hzero => absurd rfl hzero

private theorem Sound.unlockRoute (id : String) (input : Assertion) (rpIdHash : List UInt8) :
    (w.unlockRoute id input rpIdHash).Sound := by
  unfold LockWorld.unlockRoute
  split
  · exact h
  · rename_i c hfound
    have hc := Table.mem_of_find? hfound
    split
    · exact h
    · exact h.acceptZero hc
    · rename_i counter hproved
      exact h.updateCounter hc (lt_of_verifyGet hproved)

theorem Sound.dropWrite {rest : List LockWrite} (hchain : w.saveChain = k :: rest) :
    ({ w with saveChain := rest } : LockWorld).Sound := by
  have hsub {j : LockWrite} (hj : j ∈ rest) : j ∈ w.saveChain := by
    rw [hchain]
    exact List.mem_cons_of_mem _ hj
  have hunlocks : List.Sublist ({ w with saveChain := rest } : LockWorld).unlocks w.unlocks := by
    simp only [unlocks, hchain]
    exact (List.Sublist.refl _).append ((List.sublist_cons_self k rest).filterMap _)
  exact { h with
    queued := fun j hj => h.queued j (hsub hj)
    lt := fun v hv => h.lt v (hunlocks.subset hv)
    seen := fun v hv => h.seen v (hunlocks.subset hv)
    acceptedQueued := fun v hv j hj => h.acceptedQueued v hv j (hsub hj)
    own := fun j hj => h.own j (hsub hj)
    waiting := List.Pairwise.of_cons (hchain ▸ h.waiting)
    above := h.above.sublist hunlocks
    proved := fun v hv => h.proved v (hunlocks.subset hv) }

theorem Sound.fileWritten (hk : k ∈ w.saveChain) : ({ w with file := k.leaves } : LockWorld).Sound :=
  { h with
    file := h.queued k hk
    acceptedFile := fun v hv => h.acceptedQueued v hv k hk }

private theorem Sound.written {ends : WriteEnd} (hstep : w.written ends = some w') : w'.Sound := by
  cases ends with
  | failed =>
    unfold LockWorld.written at hstep
    dsimp only at hstep
    split at hstep
    · cases hstep
    · rename_i k rest hchain
      cases hstep
      exact h.dropWrite hchain
  | modeFailed =>
    unfold LockWorld.written at hstep
    dsimp only at hstep
    split at hstep
    · rename_i credentials unlock rest hchain
      cases hstep
      have hk : LockWrite.save credentials unlock ∈ w.saveChain := hchain ▸ List.mem_cons_self
      exact (h.fileWritten hk).dropWrite hchain
    · cases hstep
  | ok =>
    unfold LockWorld.written at hstep
    dsimp only at hstep
    split at hstep
    · cases hstep
    · rename_i k rest hchain
      cases hstep
      have hk : k ∈ w.saveChain := hchain ▸ List.mem_cons_self
      have hrest := (h.fileWritten hk).dropWrite hchain
      -- the accepted unlock was the first of those that waited
      have hunlocks : ({ w with saveChain := rest, file := k.leaves, accepted := w.accepted ++ k.unlock.toList } :
          LockWorld).unlocks = w.unlocks := by
        cases hu : k.unlock <;> simp [unlocks, hchain, hu]
      have hlater := (List.pairwise_cons.mp (hchain ▸ h.waiting)).1
      exact { hrest with
        lt := fun v hv => h.lt v (hunlocks ▸ hv)
        seen := fun v hv => h.seen v (hunlocks ▸ hv)
        acceptedFile := fun v hv => by
          rcases List.mem_append.mp hv with hv | hv
          · exact hrest.acceptedFile v hv
          · exact h.own k hk v (by simpa using hv)
        acceptedQueued := fun v hv j hj => by
          rcases List.mem_append.mp hv with hv | hv
          · exact hrest.acceptedQueued v hv j hj
          · exact hlater j hj v (by simpa using hv)
        above := hunlocks ▸ h.above
        proved := fun v hv => h.proved v (hunlocks ▸ hv) }

private theorem Sound.reload : ({ w with credentials := w.file, saveChain := [] } : LockWorld).Sound := by
  have hunlocks : ({ w with credentials := w.file, saveChain := [] } : LockWorld).unlocks = w.accepted := by
    simp [unlocks]
  have hsub {v : Unlock} (hv : v ∈ w.accepted) : v ∈ w.unlocks := mem_unlocks.mpr (.inl hv)
  exact { h with
    credentials := h.file
    queued := fun _ hk => by cases hk
    lt := fun v hv => h.lt v (hsub (hunlocks ▸ hv))
    seen := fun v hv => h.acceptedFile v (hunlocks ▸ hv)
    acceptedQueued := fun _ _ _ hk => by cases hk
    own := fun _ hk => by cases hk
    waiting := List.Pairwise.nil
    above := by
      rw [hunlocks]
      exact (List.pairwise_append.mp h.above).1
    proved := fun v hv => h.proved v (hsub (hunlocks ▸ hv)) }

theorem Sound.step {e : Event} (hstep : w.step e = some w') : w'.Sound := by
  cases e with
  | register id publicKey counter => exact h.addCredential hstep
  | unlock id input rpIdHash =>
    cases hstep
    exact h.unlockRoute id input rpIdHash
  | remove id =>
    cases hstep
    exact h.removeCredential id
  | clearAll =>
    cases hstep
    exact h.clearAll
  | written ends => exact h.written hstep
  | reload =>
    cases hstep
    exact h.reload

end

theorem Sound.start : start.Sound where
  credentials := .empty
  file := .empty
  queued := fun _ hk => by cases hk
  lt := fun _ hu => by cases hu
  seen := fun _ hu => by cases hu
  acceptedFile := fun _ hu => by cases hu
  acceptedQueued := fun _ hu => by cases hu
  own := fun _ hk => by cases hk
  waiting := List.Pairwise.nil
  above := List.Pairwise.nil
  proved := fun _ hu => by cases hu

/-! ### The counters -/

theorem unlockRoute_zero {input : Assertion} {rpIdHash : List UInt8} {parsed : ParsedAuthData}
    (hparsed : input.authData = some parsed) (hzero : parsed.counter = 0) :
    (w.unlockRoute id input rpIdHash).credentials = w.credentials ∧
      (w.unlockRoute id input rpIdHash).saveChain = w.saveChain := by
  unfold unlockRoute
  split
  · exact ⟨rfl, rfl⟩
  · split
    · exact ⟨rfl, rfl⟩
    · exact ⟨rfl, rfl⟩
    · rename_i counter hproved
      unfold verifyGet at hproved
      simp only [hparsed, hzero, if_true] at hproved
      split_ifs at hproved
      cases Option.some.inj hproved

/-- In every run, each accepted unlock has a zero counter or one above the counter stored then; the counters other
than zero that one registration's unlocks were accepted with increase strictly, and are above the one it was
registered with. An assertion with a zero counter changes no stored counter. -/
theorem counters_increase (h : Runs.Run step (fun _ _ => True) start w) :
    (∀ u ∈ w.accepted, u.counter = 0 ∨ u.stored < u.counter) ∧
    (w.accepted.Pairwise fun u v => u.registration = v.registration → u.counter ≠ 0 → v.counter ≠ 0 →
      u.counter < v.counter) ∧
    (∀ u ∈ w.accepted, u.counter ≠ 0 → u.registered < u.counter) ∧
    ∀ id input rpIdHash parsed, input.authData = some parsed → parsed.counter = 0 →
      (w.unlockRoute id input rpIdHash).credentials = w.credentials ∧
        (w.unlockRoute id input rpIdHash).saveChain = w.saveChain := by
  have hsound := Runs.Run.invariant (P := Sound) (fun _ _ _ hm _ hstep => hm.step hstep) h Sound.start
  have hsub {u : Unlock} (hu : u ∈ w.accepted) : u ∈ w.unlocks := mem_unlocks.mpr (.inl hu)
  refine ⟨fun u hu => ?_, (List.pairwise_append.mp hsound.above).1, fun u hu hne => (hsound.proved u (hsub hu) hne).2,
    fun _ _ _ _ hparsed hzero => unlockRoute_zero hparsed hzero⟩
  by_cases hzero : u.counter = 0
  · exact .inl hzero
  · exact .inr (hsound.proved u (hsub hu) hzero).1

/-- A public key of the right shape, and an assertion for it with a counter. -/
def key : List UInt8 := 4 :: List.replicate 64 0

def signed (counter : Nat) : Assertion where
  authData := some { rpIdHash := [], up := true, uv := true, counter }

/-- Two unlocks are accepted, with a restart between them. -/
theorem counters_increase_reload : ∃ w, Runs.Run step (fun _ _ => True) start w ∧
    w.accepted.map (·.counter) = [10, 11] ∧ ∀ u ∈ w.accepted, u.counter ≠ 0 → u.registered < u.counter := by
  have hends : (Runs.exec step (fun _ _ => True) start [.register "k" key 9, .unlock "k" (signed 10) [], .written .ok,
      .written .ok, .reload, .unlock "k" (signed 11) [], .written .ok]).any
        (fun w => w.accepted.map (·.counter) = [10, 11]) = true := by decide
  obtain ⟨w, hrun, hcounters⟩ := Runs.exists_run_of_exec hends
  exact ⟨w, hrun, of_decide_eq_true hcounters, (counters_increase hrun).2.2.1⟩

/-- A credential that was registered with the counter 9 unlocks with a zero. -/
theorem zero_accepted : ∃ w, Runs.Run step (fun _ _ => True) start w ∧
    ∃ u ∈ w.accepted, u.stored = 9 ∧ u.registered = 9 ∧ u.counter = 0 := by
  have hends : (Runs.exec step (fun _ _ => True) start [.register "k" key 9, .written .ok,
    .unlock "k" (signed 0) []]).any
      (fun w => w.accepted.any fun u => u.stored = 9 && u.registered = 9 && u.counter = 0) = true := by decide
  obtain ⟨w, hrun, hany⟩ := Runs.exists_run_of_exec hends
  obtain ⟨u, hu, hzero⟩ := List.any_eq_true.mp hany
  simp only [Bool.and_eq_true, decide_eq_true_eq] at hzero
  exact ⟨w, hrun, u, hu, hzero.1.1, hzero.1.2, hzero.2⟩

end LockWorld

end Sightr
