import Sightr.Lib.Runs
import Sightr.Lib.Table
import Mathlib.Data.List.Infix

/-!
# Push subscriptions

`Push` of `bridge/push.ts`: `addSubscription`, `forget`, `broadcast` and `save`, with any number of rounds and saves
under way at once. A round takes its list when it begins; what its sends answer is looked at when all of them are
over. Each save takes its snapshot when it is called and writes it in turn. The origin of an endpoint is a parameter.
-/

namespace Sightr.Subscriptions

open Keyed

def MAX_SUBSCRIPTIONS : Nat := 20

def EVICT_AFTER : Nat := 5

structure PushSubscription where
  endpoint : String
  p256dh : String
  auth : String
  deriving DecidableEq

structure StoredSubscription extends PushSubscription where
  createdAt : Option String := none
  userAgent : Option String := none
  deriving DecidableEq

structure SubscriptionMeta where
  replaces : Option String := none
  userAgent : Option String := none
  deriving DecidableEq

/-- What a send ended with; a failure may have a status code. -/
inductive Outcome
  | sent
  | failed (statusCode : Option Nat)
  deriving DecidableEq

inductive Answer
  | ok | disabled | full
  deriving DecidableEq

structure Round where
  began : Nat
  subs : List StoredSubscription
  deriving DecidableEq

inductive Event
  | registered (endpoint : String)
  | finished (round : Round) (outcomes : List Outcome)
  deriving DecidableEq

structure World where
  enabled : Bool
  subs : Table (fun row : StoredSubscription => row.endpoint)
  /-- Failures of each endpoint; one without an entry has none. -/
  failures : String → Nat
  rounds : List Round
  /-- The snapshots that wait in the chain, the one that is written first. -/
  saves : List (List StoredSubscription)
  file : List StoredSubscription
  lastSave : Option Bool
  log : List Event

def loadStore (rows : List StoredSubscription) : Table fun row : StoredSubscription => row.endpoint :=
  rows.foldl (fun subs row => if MAX_SUBSCRIPTIONS ≤ subs.rows.length then subs else subs.set row) .empty

/-- The counts and the endpoints to drop, while a round's results are looked at. -/
structure Tally where
  failures : String → Nat
  dead : List String

section Broadcast

variable (origin : String → String)

/-- The push services that took something in this round. -/
def healthy (results : List (StoredSubscription × Outcome)) : List String :=
  (results.filter fun result => result.2 = .sent).map fun result => origin result.1.endpoint

/-- One result: a success wipes the slate, a gone subscription is dropped, and any other failure counts where another
device of its service was served. -/
def Tally.take (healthy : List String) (tally : Tally) (result : StoredSubscription × Outcome) : Tally :=
  let endpoint := result.1.endpoint
  match result.2 with
  | .sent => { tally with failures := Function.update tally.failures endpoint 0 }
  | .failed code =>
    if code = some 404 ∨ code = some 410 then { tally with dead := tally.dead ++ [endpoint] }
    else if origin endpoint ∉ healthy then tally
    else
      let n := tally.failures endpoint + 1
      let tally := { tally with failures := Function.update tally.failures endpoint n }
      if n < EVICT_AFTER then tally else { tally with dead := tally.dead ++ [endpoint] }

variable (healthy : List String) {endpoint : String}

variable (tally : Tally)

theorem Tally.take_other {result : StoredSubscription × Outcome} (h : result.1.endpoint ≠ endpoint) :
    (tally.take origin healthy result).failures endpoint = tally.failures endpoint ∧
      (endpoint ∈ (tally.take origin healthy result).dead ↔ endpoint ∈ tally.dead) := by
  simp only [Tally.take]
  split
  · exact ⟨Function.update_of_ne h.symm .., Iff.rfl⟩
  · split_ifs
    · exact ⟨rfl, by simp [h.symm]⟩
    · exact ⟨Function.update_of_ne h.symm .., Iff.rfl⟩
    · exact ⟨Function.update_of_ne h.symm .., by simp [h.symm]⟩
    · exact ⟨rfl, Iff.rfl⟩

variable {results : List (StoredSubscription × Outcome)}

theorem Tally.foldl_other
    (h : ∀ result ∈ results, result.1.endpoint ≠ endpoint) :
    (results.foldl (Tally.take origin healthy) tally).failures endpoint = tally.failures endpoint ∧
      (endpoint ∈ (results.foldl (Tally.take origin healthy) tally).dead ↔ endpoint ∈ tally.dead) := by
  induction results generalizing tally with
  | nil => exact ⟨rfl, Iff.rfl⟩
  | cons result results ih =>
    obtain ⟨hhead, htail⟩ := List.forall_mem_cons.mp h
    obtain ⟨hfailures, hdead⟩ := ih (tally.take origin healthy result) htail
    obtain ⟨hfailures', hdead'⟩ := Tally.take_other origin healthy tally hhead
    exact ⟨hfailures.trans hfailures', hdead.trans hdead'⟩

section

variable (hnodup : (results.map fun result => result.1.endpoint).Nodup)
include hnodup

theorem Tally.foldl_own {result : StoredSubscription × Outcome}
    (hmem : result ∈ results) (hsame : result.1.endpoint = endpoint) :
    ∃ before : Tally, before.failures endpoint = tally.failures endpoint ∧
      (endpoint ∈ before.dead ↔ endpoint ∈ tally.dead) ∧
      (results.foldl (Tally.take origin healthy) tally).failures endpoint =
        (before.take origin healthy result).failures endpoint ∧
      (endpoint ∈ (results.foldl (Tally.take origin healthy) tally).dead ↔
        endpoint ∈ (before.take origin healthy result).dead) := by
  obtain ⟨front, back, rfl⟩ := List.append_of_mem hmem
  rw [List.map_append, List.map_cons, List.nodup_append, List.nodup_cons] at hnodup
  obtain ⟨-, ⟨hback, -⟩, hfront⟩ := hnodup
  rw [List.foldl_append, List.foldl_cons]
  have hno : ∀ other ∈ front, other.1.endpoint ≠ endpoint := fun other hother hno =>
    hfront _ (List.mem_map_of_mem hother) _ (List.mem_cons_self ..) (hno.trans hsame.symm)
  obtain ⟨hfailures, hdead⟩ := Tally.foldl_other origin healthy tally hno
  obtain ⟨hfailures', hdead'⟩ := Tally.foldl_other origin healthy
    ((front.foldl (Tally.take origin healthy) tally).take origin healthy result) fun other hother hno => hback
      (List.mem_map.mpr ⟨other, hother, hno.trans hsame.symm⟩)
  exact ⟨front.foldl (Tally.take origin healthy) tally, hfailures, hdead, hfailures', hdead'⟩

theorem Tally.foldl_sent {sub : StoredSubscription} (hmem : (sub, .sent) ∈ results) :
    (results.foldl (Tally.take origin healthy) tally).failures sub.endpoint = 0 ∧
      (sub.endpoint ∈ (results.foldl (Tally.take origin healthy) tally).dead ↔ sub.endpoint ∈ tally.dead) := by
  obtain ⟨before, -, hdead, hafter, hgone⟩ := Tally.foldl_own origin healthy tally hnodup hmem rfl
  exact ⟨hafter.trans (Function.update_self ..), hgone.trans hdead⟩

/-- What becomes of an endpoint whose send failed: it is gone, or it is left alone, or the failure counts and may be
one too many. -/
theorem Tally.foldl_failed {sub : StoredSubscription} {code : Option Nat}
    (hmem : (sub, .failed code) ∈ results) (hnew : sub.endpoint ∉ tally.dead) :
    let after := results.foldl (Tally.take origin healthy) tally
    ((code = some 404 ∨ code = some 410) ∧ sub.endpoint ∈ after.dead) ∨
      (origin sub.endpoint ∉ healthy ∧ after.failures sub.endpoint = tally.failures sub.endpoint ∧
        sub.endpoint ∉ after.dead) ∨
      (origin sub.endpoint ∈ healthy ∧ after.failures sub.endpoint = tally.failures sub.endpoint + 1 ∧
        (sub.endpoint ∈ after.dead ↔ EVICT_AFTER ≤ tally.failures sub.endpoint + 1)) := by
  intro after
  obtain ⟨before, hfailures, hdead, hafter, hgone⟩ := Tally.foldl_own origin healthy tally hnodup hmem rfl
  have hold : sub.endpoint ∉ before.dead := fun hno => hnew (hdead.mp hno)
  change after.failures sub.endpoint = _ at hafter
  change sub.endpoint ∈ after.dead ↔ _ at hgone
  rw [hafter, hgone, ← hfailures]
  simp only [Tally.take]
  by_cases hcode : code = some 404 ∨ code = some 410
  · rw [if_pos hcode]
    exact .inl ⟨hcode, by simp⟩
  · rw [if_neg hcode]
    by_cases hhealthy : origin sub.endpoint ∈ healthy
    · rw [if_neg (not_not.mpr hhealthy)]
      refine .inr (.inr ⟨hhealthy, ?_⟩)
      split_ifs with hfew
      · exact ⟨Function.update_self .., iff_of_false hold (not_le.mpr hfew)⟩
      · exact ⟨Function.update_self .., iff_of_true (by simp) (not_lt.mp hfew)⟩
    · rw [if_pos hhealthy]
      exact .inr (.inl ⟨hhealthy, rfl, hold⟩)

end

end Broadcast

namespace World

def start (enabled : Bool) (rows : List StoredSubscription) : World :=
  ⟨enabled, loadStore rows, fun _ => 0, [], [], rows, none, []⟩

variable (w : World)

def has (endpoint : String) : Bool := w.subs.has endpoint

def save : World := { w with saves := w.saves ++ [w.subs.rows] }

def delete (endpoint : String) : World :=
  { w with
    subs := w.subs.filter fun row => row.endpoint ≠ endpoint
    failures := Function.update w.failures endpoint 0 }

/-- The superseded row goes first; a device that names itself names no predecessor. -/
def supersede (sub : PushSubscription) (info : SubscriptionMeta) : World :=
  match info.replaces with
  | some old => if old ≠ sub.endpoint then w.delete old else w
  | none => w

def register (sub : PushSubscription) (info : SubscriptionMeta) (now : String) : World :=
  let previous := w.subs.find? sub.endpoint
  let userAgent := (info.userAgent.or (previous.bind (·.userAgent))).filter (· ≠ "")
  let createdAt := (previous.bind (·.createdAt)).getD now
  { w with
    subs := w.subs.set { sub with createdAt := some createdAt, userAgent }
    failures := Function.update w.failures sub.endpoint 0
    log := .registered sub.endpoint :: w.log }

def addSubscription (sub : PushSubscription) (info : SubscriptionMeta) (now : String) : Answer × World :=
  if !w.enabled then (.disabled, w)
  else
    let w := w.supersede sub info
    if !w.has sub.endpoint && MAX_SUBSCRIPTIONS ≤ w.subs.rows.length then (.full, w)
    else (.ok, (w.register sub info now).save)

def doomed (text endpoint : String) : Bool := text = "*" || decide (text.toList <:+: endpoint.toList)

def forget (text : String) : World :=
  if w.subs.rows.any fun row => doomed text row.endpoint then
    save { w with
      subs := w.subs.filter fun row => !doomed text row.endpoint
      failures := fun endpoint => if w.has endpoint && doomed text endpoint then 0 else w.failures endpoint }
  else w

/-- The results of a round, looked at one after another. -/
def tally (origin : String → String) (round : Round) (outcomes : List Outcome) : Tally :=
  let results := round.subs.zip outcomes
  results.foldl (Tally.take origin (healthy origin results)) ⟨w.failures, []⟩

def finish (origin : String → String) (round : Round) (outcomes : List Outcome) : World :=
  let tally := w.tally origin round outcomes
  let w := { w with failures := tally.failures, log := .finished round outcomes :: w.log }
  if tally.dead = [] then w
  else save { w with
    subs := w.subs.filter fun row => row.endpoint ∉ tally.dead
    failures := fun endpoint => if endpoint ∈ tally.dead then 0 else w.failures endpoint }

inductive Action
  | add (sub : PushSubscription) (info : SubscriptionMeta) (now : String)
  | forget (text : String)
  | broadcast
  | finish (i : Nat) (outcomes : List Outcome)
  /-- The write that is on is over; one that fails leaves the file. -/
  | written (ok : Bool)

def step (origin : String → String) : Action → Option World
  | .add sub info now => some (w.addSubscription sub info now).2
  | .forget text => some (w.forget text)
  | .broadcast => some (if w.enabled then { w with rounds := w.rounds ++ [⟨w.log.length, w.subs.rows⟩] } else w)
  | .finish i outcomes =>
    match w.rounds[i]? with
    | some round =>
      if outcomes.length = round.subs.length then
        some ({ w with rounds := w.rounds.eraseIdx i }.finish origin round outcomes)
      else none
    | none => none
  | .written ok =>
    match w.saves with
    | snapshot :: saves => some { w with saves, file := if ok then snapshot else w.file, lastSave := some ok }
    | [] => none

end World

/-! ### Why a row goes -/

section Reasons

variable (origin : String → String) (endpoint : String)

/-- How much had happened when the endpoint was last registered, that included. -/
def lastRegistered : List Event → Nat
  | [] => 0
  | e :: log => if e = .registered endpoint then log.length + 1 else lastRegistered log

def Round.outcome? (round : Round) (outcomes : List Outcome) : Option Outcome :=
  ((round.subs.zip outcomes).find? fun result => result.1.endpoint = endpoint).map (·.2)

def Event.serves : Event → Bool
  | .registered _ => false
  | .finished round outcomes => round.outcome? endpoint outcomes = some .sent

/-- A send to the endpoint failed, in a round where another device of its origin was served. -/
def Event.counts : Event → Bool
  | .registered _ => false
  | .finished round outcomes =>
    (round.outcome? endpoint outcomes).any (· ≠ .sent) && origin endpoint ∈ healthy origin (round.subs.zip outcomes)

/-- The send of this event began after the endpoint's last registration. -/
def Event.since (log : List Event) : Event → Prop
  | .registered _ => True
  | .finished round _ => lastRegistered endpoint log ≤ round.began

/-- So many failures were counted since the last registration with no success between them. -/
def Counted (log : List Event) (n : Nat) : Prop :=
  ∃ recent older, log = recent ++ older ∧ .registered endpoint ∉ recent ∧ (∀ e ∈ recent, e.serves endpoint = false) ∧
    (recent.filter (·.counts origin endpoint)).length = n ∧
    ∀ e ∈ recent, e.counts origin endpoint = true → e.since endpoint log

inductive Reason (w : World) : World.Action → Prop
  | forgotten {text : String} (h : World.doomed text endpoint = true) : Reason w (.forget text)
  | replaced {sub : PushSubscription} {info : SubscriptionMeta} {now : String} (h : info.replaces = some endpoint)
      (hother : sub.endpoint ≠ endpoint) : Reason w (.add sub info now)
  /-- A send that began after the registration says that the subscription is gone. -/
  | gone {i : Nat} {round : Round} {outcomes : List Outcome} {code : Nat} (hround : w.rounds[i]? = some round)
      (hcode : code = 404 ∨ code = 410) (houtcome : round.outcome? endpoint outcomes = some (.failed (some code)))
      (hsince : lastRegistered endpoint w.log ≤ round.began) : Reason w (.finish i outcomes)
  /-- A send that began after the registration is the last of so many counted failures. -/
  | evicted {i : Nat} {round : Round} {outcomes : List Outcome} (hround : w.rounds[i]? = some round)
      (hcounts : (Event.finished round outcomes).counts origin endpoint = true)
      (hsince : lastRegistered endpoint w.log ≤ round.began)
      (hearlier : Counted origin endpoint w.log (EVICT_AFTER - 1)) : Reason w (.finish i outcomes)

variable {origin endpoint}

theorem lastRegistered_cons {e : Event} (h : e ≠ .registered endpoint) (log : List Event) :
    lastRegistered endpoint (e :: log) = lastRegistered endpoint log := if_neg h

theorem Event.since_cons {e : Event} (h : e ≠ .registered endpoint) (log : List Event) (other : Event) :
    other.since endpoint (e :: log) ↔ other.since endpoint log := by
  cases other with
  | registered => exact Iff.rfl
  | finished => rw [Event.since, lastRegistered_cons h, Event.since]

theorem Counted.zero (log : List Event) : Counted origin endpoint log 0 :=
  ⟨[], log, rfl, List.not_mem_nil, fun _ h => absurd h List.not_mem_nil, rfl, fun _ h => absurd h List.not_mem_nil⟩

theorem Counted.cons {log : List Event} {n : Nat} (h : Counted origin endpoint log n) {e : Event}
    (hnew : e ≠ .registered endpoint) (hserves : e.serves endpoint = false)
    (hsince : e.counts origin endpoint = true → e.since endpoint log) :
    Counted origin endpoint (e :: log) (if e.counts origin endpoint then n + 1 else n) := by
  obtain ⟨recent, older, hlog, hregistered, hserved, hcount, hafter⟩ := h
  refine ⟨e :: recent, older, by rw [hlog, List.cons_append], ?_, ?_, ?_, ?_⟩
  · exact fun hmem => (List.mem_cons.mp hmem).elim (fun hsame => hnew hsame.symm) hregistered
  · exact List.forall_mem_cons.mpr ⟨hserves, hserved⟩
  · rw [List.filter_cons, ← hcount]
    split_ifs <;> rfl
  · exact List.forall_mem_cons.mpr ⟨fun hcounts => (Event.since_cons hnew log e).mpr (hsince hcounts),
      fun other hother hcounts => (Event.since_cons hnew log other).mpr (hafter other hother hcounts)⟩

end Reasons

namespace World

variable (w : World)

/-- No failed send of the round that ends began before its endpoint's last registration. -/
def fresh : Action → Bool
  | .finish i outcomes => (w.rounds[i]?).all fun round => (round.subs.zip outcomes).all fun result =>
      result.2 = .sent || lastRegistered result.1.endpoint w.log ≤ round.began
  | _ => true

variable {w} {origin : String → String} {endpoint : String}

/-! ### Saves -/

def Synced (w : World) : Prop :=
  (∀ snapshot ∈ w.saves.getLast?, snapshot = w.subs.rows) ∧
    (w.saves = [] → w.lastSave = some true → w.file = w.subs.rows)

theorem synced_save (w : World) : w.save.Synced := by
  refine ⟨fun snapshot hlast => ?_, fun hnone => ?_⟩
  · rw [save, List.getLast?_concat] at hlast
    exact (Option.some.inj hlast).symm
  · exact absurd hnone (List.concat_ne_nil _ _)

theorem Synced.written (h : w.Synced) {snapshot : List StoredSubscription} {saves : List (List StoredSubscription)}
    (hsaves : w.saves = snapshot :: saves) (ok : Bool) :
    Synced { w with saves, file := if ok then snapshot else w.file, lastSave := some ok } := by
  refine ⟨fun last hlast => ?_, fun hnone hok => ?_⟩
  · refine h.1 last ?_
    rw [hsaves, List.getLast?_cons, hlast]
    rfl
  · obtain rfl : ok = true := Option.some.inj hok
    refine h.1 snapshot ?_
    rw [hsaves, show saves = [] from hnone]
    rfl

/-! ### A registration -/

/-- Memory keeps its cap, rounds name an endpoint once, and each count is what the log says. -/
structure Sound (origin : String → String) (w : World) : Prop where
  size : w.subs.rows.length ≤ MAX_SUBSCRIPTIONS
  rounds : ∀ round ∈ w.rounds, (round.subs.map (·.endpoint)).Nodup
  counted : ∀ endpoint, w.failures endpoint < EVICT_AFTER ∧ Counted origin endpoint w.log (w.failures endpoint)

section

variable (h : w.Sound origin)
include h

theorem Sound.fewer {p : StoredSubscription → Bool} {failures : String → Nat}
    (hfailures : ∀ endpoint, failures endpoint = 0 ∨ failures endpoint = w.failures endpoint) :
    Sound origin { w with subs := w.subs.filter p, failures } where
  size := (List.length_filter_le ..).trans h.size
  rounds := h.rounds
  counted endpoint := by
    change failures endpoint < _ ∧ Counted origin endpoint w.log (failures endpoint)
    obtain hzero | hsame := hfailures endpoint
    · rw [hzero]
      exact ⟨by decide, .zero _⟩
    · rw [hsame]
      exact h.counted endpoint

theorem Sound.save : w.save.Sound origin := ⟨h.size, h.rounds, h.counted⟩

theorem Sound.delete (endpoint : String) : (w.delete endpoint).Sound origin :=
  h.fewer fun other => by
    by_cases hsame : other = endpoint
    · exact .inl (hsame ▸ Function.update_self ..)
    · exact .inr (Function.update_of_ne hsame ..)

theorem Sound.supersede (sub : PushSubscription) (info : SubscriptionMeta) : (w.supersede sub info).Sound origin := by
  unfold World.supersede
  split
  · split_ifs
    · exact h.delete _
    · exact h
  · exact h

end

theorem supersede_of_full (hsize : w.subs.rows.length ≤ MAX_SUBSCRIPTIONS) {sub : PushSubscription}
    {info : SubscriptionMeta} (hfull : MAX_SUBSCRIPTIONS ≤ (w.supersede sub info).subs.rows.length) :
    (w.supersede sub info).subs = w.subs := by
  unfold supersede at hfull ⊢
  split
  · next old hold =>
    rw [hold] at hfull
    dsimp only at hfull
    split_ifs with hother
    · rw [if_pos hother] at hfull
      have hall : (w.subs.rows.filter fun row => row.endpoint ≠ old).length = w.subs.rows.length :=
        le_antisymm (List.length_filter_le ..) (hsize.trans hfull)
      exact Table.ext (List.filter_eq_self.mpr (List.length_filter_eq_length_iff.mp hall))
    · rfl
  · rfl

theorem has_supersede (sub : PushSubscription) (info : SubscriptionMeta) (hhas : w.has endpoint = true)
    (hgone : (w.supersede sub info).has endpoint ≠ true) :
    info.replaces = some endpoint ∧ sub.endpoint ≠ endpoint := by
  unfold supersede at hgone
  split at hgone
  · next old hold =>
    split_ifs at hgone with hother
    · obtain ⟨row, hrow, hsame⟩ := Table.has_iff.mp hhas
      have hnot : ¬row.endpoint ≠ old := fun hkept => hgone (Table.has_iff.mpr
        ⟨row, List.mem_filter.mpr ⟨hrow, decide_eq_true hkept⟩, hsame⟩)
      obtain rfl : old = endpoint := (not_not.mp hnot).symm.trans hsame
      exact ⟨hold, hother.symm⟩
    · exact absurd hhas hgone
  · exact absurd hhas hgone

theorem frame_supersede (sub : PushSubscription) (info : SubscriptionMeta) : (w.supersede sub info).saves = w.saves ∧
    (w.supersede sub info).file = w.file ∧ (w.supersede sub info).lastSave = w.lastSave := by
  unfold supersede
  split
  · split_ifs
    · exact ⟨rfl, rfl, rfl⟩
    · exact ⟨rfl, rfl, rfl⟩
  · exact ⟨rfl, rfl, rfl⟩

theorem Sound.register (h : w.Sound origin) {sub : PushSubscription}
    (hroom : w.has sub.endpoint = true ∨ w.subs.rows.length < MAX_SUBSCRIPTIONS) (info : SubscriptionMeta)
    (now : String) :
    (w.register sub info now).Sound origin where
  size := by
    refine (Table.length_rows_set ..).trans_le ?_
    split_ifs with hhas
    · exact h.size
    · exact hroom.resolve_left hhas
  rounds := h.rounds
  counted endpoint := by
    change Function.update w.failures sub.endpoint 0 endpoint < _ ∧
      Counted origin endpoint _ (Function.update w.failures sub.endpoint 0 endpoint)
    by_cases hsame : endpoint = sub.endpoint
    · subst hsame
      rw [Function.update_self]
      exact ⟨by decide, .zero _⟩
    · rw [Function.update_of_ne hsame]
      obtain ⟨hfew, hcounted⟩ := h.counted endpoint
      refine ⟨hfew, hcounted.cons (e := .registered sub.endpoint) (fun hno => ?_) rfl fun _ => trivial⟩
      exact hsame (Event.registered.inj hno).symm

theorem Sound.add (h : w.Sound origin) (hsynced : w.Synced) (sub : PushSubscription) (info : SubscriptionMeta)
    (now : String) :
    (w.addSubscription sub info now).2.Sound origin ∧ (w.addSubscription sub info now).2.Synced := by
  unfold addSubscription
  split_ifs with henabled
  · exact ⟨h, hsynced⟩
  · have hafter := h.supersede sub info
    dsimp only
    split_ifs with hfull
    · rw [Bool.and_eq_true, decide_eq_true_eq] at hfull
      obtain ⟨hsaves, hfile, hlast⟩ := frame_supersede (w := w) sub info
      refine ⟨hafter, ?_⟩
      rw [Synced, hsaves, hfile, hlast, supersede_of_full h.size hfull.2]
      exact hsynced
    · refine ⟨(hafter.register ?_ info now).save, synced_save _⟩
      by_cases hhas : (w.supersede sub info).has sub.endpoint = true
      · exact .inl hhas
      · exact .inr (not_le.mp fun hno => hfull (by simp [hhas, hno]))

theorem Sound.forget (h : w.Sound origin) (hsynced : w.Synced) (text : String) :
    (w.forget text).Sound origin ∧ (w.forget text).Synced := by
  unfold World.forget
  split_ifs
  · refine ⟨(h.fewer fun endpoint => ?_).save, synced_save _⟩
    split_ifs
    · exact .inl rfl
    · exact .inr rfl
  · exact ⟨h, hsynced⟩

/-! ### The end of a round -/

variable (w origin) in
theorem finish_spec (round : Round) (outcomes : List Outcome) : (w.finish origin round outcomes).subs =
        w.subs.filter (fun row => row.endpoint ∉ (w.tally origin round outcomes).dead) ∧
      (w.finish origin round outcomes).failures = (fun endpoint =>
        if endpoint ∈ (w.tally origin round outcomes).dead then 0
        else (w.tally origin round outcomes).failures endpoint) ∧
      (w.finish origin round outcomes).log = .finished round outcomes :: w.log ∧
      (w.finish origin round outcomes).rounds = w.rounds := by
  unfold World.finish
  dsimp only
  split_ifs with hdead
  · refine ⟨Table.ext ?_, ?_, rfl, rfl⟩
    · simp [hdead]
    · simp [hdead]
  · exact ⟨rfl, rfl, rfl, rfl⟩

theorem Synced.finish (h : w.Synced) (round : Round) (outcomes : List Outcome) :
    (w.finish origin round outcomes).Synced := by
  unfold World.finish
  dsimp only
  split_ifs
  · exact h
  · exact synced_save _

variable (w origin) in
theorem tally_cases {round : Round} {outcomes : List Outcome} (hnodup : (round.subs.map (·.endpoint)).Nodup)
    (hlength : outcomes.length = round.subs.length) (endpoint : String) :
    let after := w.tally origin round outcomes
    (round.outcome? endpoint outcomes = none ∧ after.failures endpoint = w.failures endpoint ∧
        endpoint ∉ after.dead) ∨
      (round.outcome? endpoint outcomes = some .sent ∧ after.failures endpoint = 0 ∧ endpoint ∉ after.dead) ∨
      ∃ code, round.outcome? endpoint outcomes = some (.failed code) ∧
        (((code = some 404 ∨ code = some 410) ∧ endpoint ∈ after.dead) ∨
          (origin endpoint ∉ healthy origin (round.subs.zip outcomes) ∧
            after.failures endpoint = w.failures endpoint ∧ endpoint ∉ after.dead) ∨
          (origin endpoint ∈ healthy origin (round.subs.zip outcomes) ∧
            after.failures endpoint = w.failures endpoint + 1 ∧
            (endpoint ∈ after.dead ↔ EVICT_AFTER ≤ w.failures endpoint + 1))) := by
  intro after
  have hkeys : ((round.subs.zip outcomes).map fun result => result.1.endpoint).Nodup := by
    have hsubs : (round.subs.zip outcomes).map Prod.fst = round.subs := List.map_fst_zip hlength.ge
    have hsame := congrArg (List.map (·.endpoint)) hsubs
    rw [List.map_map] at hsame
    exact hsame ▸ hnodup
  cases hfound : (round.subs.zip outcomes).find? fun result => result.1.endpoint = endpoint with
  | none =>
    have hnone := List.find?_eq_none.mp hfound
    have hother : ∀ result ∈ round.subs.zip outcomes, result.1.endpoint ≠ endpoint := fun result hmem => by
      simpa using hnone result hmem
    obtain ⟨hfailures, hdead⟩ := Tally.foldl_other origin
      (healthy origin (round.subs.zip outcomes)) ⟨w.failures, []⟩ hother
    exact .inl ⟨by rw [Round.outcome?, hfound]; rfl, hfailures, fun hno => List.not_mem_nil (hdead.mp hno)⟩
  | some result =>
    obtain ⟨sub, outcome⟩ := result
    have hmem := List.mem_of_find?_eq_some hfound
    obtain rfl : sub.endpoint = endpoint := by simpa using List.find?_some hfound
    have houtcome : round.outcome? sub.endpoint outcomes = some outcome := by rw [Round.outcome?, hfound]; rfl
    cases outcome with
    | sent =>
      obtain ⟨hfailures, hdead⟩ := Tally.foldl_sent origin
        (healthy origin (round.subs.zip outcomes)) ⟨w.failures, []⟩ hkeys hmem
      exact .inr (.inl ⟨houtcome, hfailures, fun hno => List.not_mem_nil (hdead.mp hno)⟩)
    | failed code =>
      exact .inr (.inr ⟨code, houtcome, Tally.foldl_failed origin _ ⟨w.failures, []⟩ hkeys hmem List.not_mem_nil⟩)

theorem mem_of_outcome {round : Round} {outcomes : List Outcome} {outcome : Outcome}
    (h : round.outcome? endpoint outcomes = some outcome) :
    ∃ sub, (sub, outcome) ∈ round.subs.zip outcomes ∧ sub.endpoint = endpoint := by
  obtain ⟨result, hfound, rfl⟩ := Option.map_eq_some_iff.mp h
  exact ⟨result.1, List.mem_of_find?_eq_some hfound, by simpa using List.find?_some hfound⟩

/-- Each failed send of the round began after its endpoint's last registration. -/
def Fresh (w : World) (round : Round) (outcomes : List Outcome) : Prop :=
  ∀ endpoint code, round.outcome? endpoint outcomes = some (.failed code) →
    lastRegistered endpoint w.log ≤ round.began

theorem fresh_of_fresh {i : Nat} {round : Round} {outcomes : List Outcome} (hround : w.rounds[i]? = some round)
    (h : w.fresh (.finish i outcomes) = true) : w.Fresh round outcomes := by
  intro endpoint code houtcome
  obtain ⟨sub, hmem, rfl⟩ := mem_of_outcome houtcome
  rw [World.fresh, hround, Option.all_some] at h
  simpa using List.all_eq_true.mp h _ hmem

theorem Sound.finish (h : w.Sound origin) {round : Round} {outcomes : List Outcome}
    (hnodup : (round.subs.map (·.endpoint)).Nodup) (hlength : outcomes.length = round.subs.length)
    (hfresh : w.Fresh round outcomes) : (w.finish origin round outcomes).Sound origin := by
  obtain ⟨hsubs, hfailures, hlog, hrounds⟩ := finish_spec w origin round outcomes
  refine ⟨?_, ?_, fun endpoint => ?_⟩
  · rw [hsubs]
    exact (List.length_filter_le ..).trans h.size
  · rw [hrounds]
    exact h.rounds
  · rw [hfailures, hlog]
    dsimp only
    obtain ⟨hfew, hcounted⟩ := h.counted endpoint
    have hnew : Event.finished round outcomes ≠ .registered endpoint := fun hno => by cases hno
    obtain ⟨hnone, hsame, halive⟩ | ⟨-, hzero, halive⟩ | ⟨code, hfailed, hcases⟩ :=
      tally_cases w origin hnodup hlength endpoint
    · rw [if_neg halive, hsame]
      have hcounts : (Event.finished round outcomes).counts origin endpoint = false := by simp [Event.counts, hnone]
      have hnext := hcounted.cons hnew (by simp [Event.serves, hnone]) fun hno => by cases hcounts.symm.trans hno
      rw [if_neg (by simp [hcounts])] at hnext
      exact ⟨hfew, hnext⟩
    · rw [if_neg halive, hzero]
      exact ⟨by decide, .zero _⟩
    · have hserves : (Event.finished round outcomes).serves endpoint = false := by simp [Event.serves, hfailed]
      have hnext := hcounted.cons hnew hserves fun _ => hfresh endpoint code hfailed
      obtain ⟨-, hdead⟩ | ⟨hsick, hsame, halive⟩ | ⟨hhealthy, hmore, hdead⟩ := hcases
      · rw [if_pos hdead]
        exact ⟨by decide, .zero _⟩
      · rw [if_neg halive, hsame]
        rw [if_neg (by simp [Event.counts, hsick])] at hnext
        exact ⟨hfew, hnext⟩
      · split_ifs with hgone
        · exact ⟨by decide, .zero _⟩
        · rw [hmore]
          rw [if_pos (by simp [Event.counts, hfailed, hhealthy])] at hnext
          exact ⟨not_le.mp fun hno => hgone (hdead.mpr hno), hnext⟩

theorem Sound.step (h : w.Sound origin) (hsynced : w.Synced) {next : World} {action : Action}
    (hfresh : w.fresh action = true) (hstep : w.step origin action = some next) :
    next.Sound origin ∧ next.Synced := by
  cases action with
  | add sub info now =>
    cases hstep
    exact h.add hsynced sub info now
  | forget text =>
    cases hstep
    exact h.forget hsynced text
  | broadcast =>
    cases hstep
    split_ifs
    · refine ⟨⟨h.size, fun round hround => ?_, h.counted⟩, hsynced⟩
      obtain hold | hnew := List.mem_append.mp hround
      · exact h.rounds round hold
      · rw [List.mem_singleton.mp hnew]
        exact w.subs.nodup
    · exact ⟨h, hsynced⟩
  | finish i outcomes =>
    simp only [World.step] at hstep
    split at hstep
    · next round hround =>
      split at hstep
      · next hlength =>
        cases hstep
        have hmem : round ∈ w.rounds := List.mem_of_getElem? hround
        have hrest : Sound origin { w with rounds := w.rounds.eraseIdx i } :=
          ⟨h.size, fun other hother => h.rounds other (List.mem_of_mem_eraseIdx hother), h.counted⟩
        have hold : w.Fresh round outcomes := fresh_of_fresh hround hfresh
        exact ⟨hrest.finish (h.rounds round hmem) hlength hold,
          Synced.finish (w := { w with rounds := w.rounds.eraseIdx i }) hsynced round outcomes⟩
      · cases hstep
    · cases hstep
  | written ok =>
    simp only [World.step] at hstep
    split at hstep
    · next snapshot saves hsaves =>
      cases hstep
      exact ⟨⟨h.size, h.rounds, h.counted⟩, hsynced.written hsaves ok⟩
    · cases hstep

theorem length_loadStore_le (rows : List StoredSubscription) : (loadStore rows).rows.length ≤ MAX_SUBSCRIPTIONS := by
  suffices h : ∀ subs : Table fun row : StoredSubscription => row.endpoint, subs.rows.length ≤ MAX_SUBSCRIPTIONS →
      (rows.foldl (fun subs row => if MAX_SUBSCRIPTIONS ≤ subs.rows.length then subs else subs.set row)
        subs).rows.length ≤ MAX_SUBSCRIPTIONS from h .empty (Nat.zero_le _)
  induction rows with
  | nil => exact fun subs h => h
  | cons row rows ih =>
    intro subs h
    rw [List.foldl_cons]
    refine ih _ ?_
    split_ifs with hfull
    · exact h
    · rw [Table.length_rows_set]
      have hroom : subs.rows.length + 1 ≤ MAX_SUBSCRIPTIONS := not_le.mp hfull
      split_ifs
      · exact h
      · exact hroom

theorem sound_start (enabled : Bool) (rows : List StoredSubscription) :
    (start enabled rows).Sound origin ∧ (start enabled rows).Synced := by
  refine ⟨⟨length_loadStore_le rows, fun round hno => ?_, fun endpoint => ⟨show 0 < EVICT_AFTER by decide, .zero _⟩⟩,
    fun snapshot hno => ?_, fun _ hno => ?_⟩
  · cases hno
  · cases hno
  · cases hno

/-! ### A row goes -/

theorem not_of_gone {subs : Table fun row : StoredSubscription => row.endpoint} {p : String → Bool}
    (hhas : subs.has endpoint = true) (hgone : (subs.filter fun row => p row.endpoint).has endpoint ≠ true) :
    p endpoint = false := by
  obtain ⟨row, hrow, rfl⟩ := Table.has_iff.mp hhas
  exact (Bool.not_eq_true _).mp fun hp => hgone (Table.has_iff.mpr ⟨row, List.mem_filter.mpr ⟨hrow, hp⟩, rfl⟩)

theorem reason_add {sub : PushSubscription} {info : SubscriptionMeta} {now : String} (hhas : w.has endpoint = true)
    (hgone : (w.addSubscription sub info now).2.has endpoint ≠ true) :
    Reason origin endpoint w (.add sub info now) := by
  have hsuperseded : (w.supersede sub info).has endpoint ≠ true := fun hthere => by
    refine hgone ?_
    unfold addSubscription
    split_ifs with henabled
    · exact hhas
    · dsimp only
      split_ifs with hfull
      · exact hthere
      · obtain ⟨row, hrow, hsame⟩ := Table.has_iff.mp hthere
        refine Table.has_iff.mpr ?_
        by_cases hown : row.endpoint = sub.endpoint
        · exact ⟨_, Table.mem_set.mpr (.inl rfl), hown.symm.trans hsame⟩
        · exact ⟨row, Table.mem_set.mpr (.inr ⟨hrow, hown⟩), hsame⟩
  obtain ⟨hnames, hother⟩ := has_supersede sub info hhas hsuperseded
  exact .replaced hnames hother

theorem reason_forget {text : String} (hhas : w.has endpoint = true) (hgone : (w.forget text).has endpoint ≠ true) :
    Reason origin endpoint w (.forget text) := by
  unfold World.forget at hgone
  split_ifs at hgone
  · have hnot := not_of_gone (p := fun endpoint => !doomed text endpoint) hhas hgone
    exact .forgotten (by simpa using hnot)
  · exact absurd hhas hgone

theorem Sound.reason_finish (h : w.Sound origin) {i : Nat} {round : Round} {outcomes : List Outcome}
    (hround : w.rounds[i]? = some round) (hlength : outcomes.length = round.subs.length)
    (hfresh : w.Fresh round outcomes) (hhas : w.has endpoint = true)
    (hgone : ({ w with rounds := w.rounds.eraseIdx i }.finish origin round outcomes).has endpoint ≠ true) :
    Reason origin endpoint w (.finish i outcomes) := by
  obtain ⟨hsubs, -⟩ := finish_spec { w with rounds := w.rounds.eraseIdx i } origin round outcomes
  rw [has, hsubs] at hgone
  have hdead : endpoint ∈ (w.tally origin round outcomes).dead := by
    simpa using not_of_gone (p := fun endpoint => endpoint ∉ (w.tally origin round outcomes).dead) hhas hgone
  have hnodup := h.rounds round (List.mem_of_getElem? hround)
  obtain ⟨-, -, halive⟩ | ⟨-, -, halive⟩ | ⟨code, hfailed, hcases⟩ := tally_cases w origin hnodup hlength endpoint
  · exact absurd hdead halive
  · exact absurd hdead halive
  · have hsince := hfresh endpoint code hfailed
    obtain ⟨rfl | rfl, -⟩ | ⟨-, -, halive⟩ | ⟨hhealthy, -, hmany⟩ := hcases
    · exact .gone hround (.inl rfl) hfailed hsince
    · exact .gone hround (.inr rfl) hfailed hsince
    · exact absurd hdead halive
    · refine .evicted hround (by simp [Event.counts, hfailed, hhealthy]) hsince ?_
      obtain ⟨hfew, hcounted⟩ := h.counted endpoint
      have hall : w.failures endpoint = EVICT_AFTER - 1 :=
        le_antisymm (Nat.le_sub_one_of_lt hfew) (Nat.sub_le_of_le_add (hmany.mp hdead))
      exact hall ▸ hcounted

theorem Sound.reason (h : w.Sound origin) {next : World} {action : Action} (hfresh : w.fresh action = true)
    (hstep : w.step origin action = some next) (hhas : w.has endpoint = true) (hgone : next.has endpoint ≠ true) :
    Reason origin endpoint w action := by
  cases action with
  | add sub info now =>
    cases hstep
    exact reason_add hhas hgone
  | forget text =>
    cases hstep
    exact reason_forget hhas hgone
  | broadcast =>
    cases hstep
    split_ifs at hgone
    · exact absurd hhas hgone
    · exact absurd hhas hgone
  | finish i outcomes =>
    simp only [World.step] at hstep
    split at hstep
    · next round hround =>
      split at hstep
      · next hlength =>
        cases hstep
        exact h.reason_finish hround hlength (fresh_of_fresh hround hfresh) hhas hgone
      · cases hstep
    · cases hstep
  | written ok =>
    simp only [World.step] at hstep
    split at hstep
    · cases hstep
      exact absurd hhas hgone
    · cases hstep

theorem Sound.answer (h : w.Sound origin) (sub : PushSubscription) (info : SubscriptionMeta) (now : String) :
    ((w.addSubscription sub info now).1 = .ok → (w.addSubscription sub info now).2.has sub.endpoint = true) ∧
      ((w.addSubscription sub info now).1 = .full → (w.addSubscription sub info now).2.subs = w.subs) := by
  unfold addSubscription
  split_ifs with henabled
  · exact ⟨fun hno => (by cases hno), fun hno => (by cases hno)⟩
  · dsimp only
    split_ifs with hfull
    · rw [Bool.and_eq_true, decide_eq_true_eq] at hfull
      exact ⟨fun hno => (by cases hno), fun _ => supersede_of_full h.size hfull.2⟩
    · exact ⟨fun _ => Table.has_iff.mpr ⟨_, Table.mem_set.mpr (.inl rfl), rfl⟩, fun hno => by cases hno⟩

/-- In every run of calls, rounds and writes in any order, in which no failed send of a round began before its
endpoint's last registration: a row goes for a reason only, the store holds no more rows than the cap, a
registered row is there, a call that answers `full` changes no row, and when all writes are over and the last
one went well the file holds the rows in memory. -/
theorem dropped_for_reason (origin : String → String) {enabled : Bool} {rows : List StoredSubscription}
    (hrun : Runs.Run (fun w => w.step origin) (fun w action => w.fresh action = true) (start enabled rows) w) :
    (∀ action next endpoint, w.fresh action = true → w.step origin action = some next → w.has endpoint = true →
        next.has endpoint ≠ true → Reason origin endpoint w action) ∧
      w.subs.rows.length ≤ MAX_SUBSCRIPTIONS ∧
      (∀ sub info now,
        ((w.addSubscription sub info now).1 = .ok → (w.addSubscription sub info now).2.has sub.endpoint = true) ∧
          ((w.addSubscription sub info now).1 = .full → (w.addSubscription sub info now).2.subs = w.subs)) ∧
      (w.saves = [] → w.lastSave = some true → w.file = w.subs.rows) := by
  obtain ⟨h, hsynced⟩ : w.Sound origin ∧ w.Synced :=
    hrun.invariant (P := fun w => w.Sound origin ∧ w.Synced)
      (fun _ _ _ h hfresh hstep => h.1.step h.2 hfresh hstep) (sound_start enabled rows)
  exact ⟨fun _ _ _ hfresh hstep hhas hgone => h.reason hfresh hstep hhas hgone, h.size,
    fun sub info now => h.answer sub info now, hsynced.2⟩

private def phone : PushSubscription := ⟨"https://push.test/phone", "p", "a"⟩

private def desk : PushSubscription := ⟨"https://push.test/desk", "q", "b"⟩

/-- A subscription that its service disowns in a round goes for that reason. -/
theorem dropped_for_reason_gone : ∃ w next : World, ∃ i outcomes, w.has "https://push.test/phone" = true ∧
    next.has "https://push.test/phone" = false ∧
    Reason (fun _ => "https://push.test") "https://push.test/phone" w (.finish i outcomes) := by
  obtain ⟨w, hrun, hw⟩ := Runs.exists_run_of_exec
    (show (Runs.exec (fun w => World.step w fun _ => "https://push.test") (fun w action => w.fresh action = true)
      (start true []) [.add phone {} "1", .add desk {} "2", .broadcast]).any
      (fun w => w.has "https://push.test/phone" && w.fresh (.finish 0 [.failed (some 410), .sent]) &&
        (w.step (fun _ => "https://push.test") (.finish 0 [.failed (some 410), .sent])).any
          fun next => !next.has "https://push.test/phone") = true by decide +kernel)
  simp only [Bool.and_eq_true] at hw
  obtain ⟨⟨hhas, hfresh⟩, hany⟩ := hw
  obtain ⟨next, hstep, hgone⟩ := (Option.any_eq_true _ _).mp hany
  rw [Bool.not_eq_true'] at hgone
  exact ⟨w, next, 0, _, hhas, hgone,
    (dropped_for_reason _ hrun).1 _ next _ hfresh hstep hhas (Bool.eq_false_iff.mp hgone)⟩

/-- A round begins, a device registers anew, and the round's send, which began before, says that the subscription is
gone: the row goes, and nothing newer than its registration says so. -/
theorem dropped_by_stale_round : ∃ w next : World,
    Runs.Run (fun w => World.step w fun _ => "https://push.test") (fun _ _ => True) (start true []) w ∧
    w.step (fun _ => "https://push.test") (.finish 0 [.failed (some 410), .sent]) = some next ∧
    w.has "https://push.test/phone" = true ∧ next.has "https://push.test/phone" = false ∧
    ¬Reason (fun _ => "https://push.test") "https://push.test/phone" w (.finish 0 [.failed (some 410), .sent]) := by
  obtain ⟨w, hrun, hw⟩ := Runs.exists_run_of_exec
    (show (Runs.exec (fun w => World.step w fun _ => "https://push.test") (fun _ _ => True) (start true [])
      [.add phone {} "1", .add desk {} "2", .broadcast, .add phone {} "3"]).any
      (fun w => w.has "https://push.test/phone" &&
        (w.rounds[0]?).any (fun round => round.began < lastRegistered "https://push.test/phone" w.log) &&
        (w.step (fun _ => "https://push.test") (.finish 0 [.failed (some 410), .sent])).any
          fun next => !next.has "https://push.test/phone") = true by decide +kernel)
  simp only [Bool.and_eq_true] at hw
  obtain ⟨⟨hhas, hlate⟩, hany⟩ := hw
  obtain ⟨next, hstep, hgone⟩ := (Option.any_eq_true _ _).mp hany
  obtain ⟨round, hround, hbegan⟩ := (Option.any_eq_true _ _).mp hlate
  rw [Bool.not_eq_true'] at hgone
  rw [decide_eq_true_eq] at hbegan
  refine ⟨w, next, hrun, hstep, hhas, hgone, fun hreason => ?_⟩
  cases hreason with
  | gone hfound _ _ hsince =>
    obtain rfl := Option.some.inj (hround.symm.trans hfound)
    exact not_lt.mpr hsince hbegan
  | evicted hfound _ hsince _ =>
    obtain rfl := Option.some.inj (hround.symm.trans hfound)
    exact not_lt.mpr hsince hbegan

end World

end Sightr.Subscriptions
