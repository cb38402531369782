import Mathlib.Algebra.GroupWithZero.Nat
import Mathlib.Order.Lattice
import Mathlib.Data.List.Basic
import Sightr.Lib.Runs
import Sightr.Lib.Table

/-!
# The write queue of a pane

`bridge/pane-queue.ts`: every key owns a chain of promises. A call waits for the tail of the call before
it or for its timeout, runs its function, and then lets its own tail settle. Promise jobs run in any order
here, and calls, timeouts and results come at any time between them.
-/

namespace Sightr

open Keyed (Table)

/-! ### The state -/

/-- How a call ends: its function returned or threw, or the call was rejected with `PaneBusyError`. -/
inductive CallResult
  | returned | threw | busy
  deriving DecidableEq

/-- Where a call is. `granted` and `refused` are `waitTurn` settled, before the call goes on. -/
inductive CallPhase
  | waiting | granted | refused | running
  | ended (result : CallResult)
  deriving DecidableEq

/-- `done` was called: the call's own promise is resolved. -/
def CallPhase.released : CallPhase → Bool
  | ended _ => true
  | _ => false

def CallPhase.passed : CallPhase → Bool
  | .granted | .running | .ended .returned | .ended .threw => true
  | _ => false

def CallPhase.ran : CallPhase → Bool
  | .running | .ended .returned | .ended .threw => true
  | _ => false

/-- The call has not got its turn yet, and may get it. -/
def CallPhase.pending : CallPhase → Bool
  | .waiting | .granted => true
  | _ => false

structure QueueCall where
  key : String
  prev : Option Nat
  phase : CallPhase := .waiting
  settled : Bool := false
  /-- The tail's last job, which takes it out of the map, has run. -/
  swept : Bool := false
  deriving DecidableEq

/-- An entry of the map: the tail of a key is the tail of a call. -/
structure QueueTail where
  key : String
  call : Nat
  deriving DecidableEq

structure PaneQueue where
  calls : List QueueCall
  tails : Table QueueTail.key
  /-- The calls whose functions were started, in that order. -/
  started : List Nat
  deriving DecidableEq

namespace PaneQueue

def empty : PaneQueue where
  calls := []
  tails := .empty
  started := []

/-! ### Steps -/

inductive Action
  | run (key : String)
  | timeout (i : Nat)
  | finish (i : Nat) (threw : Bool)
  /-- The tail before a waiting call is settled: the timer is cleared. -/
  | grant (i : Nat)
  | start (i : Nat)
  | refuse (i : Nat)
  | settle (i : Nat)
  | sweep (i : Nat)
  deriving DecidableEq

variable (w : PaneQueue)

/-- The tail a call waits for is settled; a call that found none waits for nothing. -/
def free (call : QueueCall) : Bool := call.prev.all fun j => w.calls[j]?.any (·.settled)

def advance (i : Nat) (ready : QueueCall → Bool) (f : QueueCall → QueueCall) : Option PaneQueue :=
  if w.calls[i]?.any ready then some { w with calls := w.calls.modify i f } else none

def step : Action → Option PaneQueue
  | .run key => some { w with
      calls := w.calls ++ [{ key, prev := (w.tails.find? key).map (·.call) }]
      tails := w.tails.set { key, call := w.calls.length } }
  | .timeout i => w.advance i (·.phase = .waiting) ({ · with phase := .refused })
  | .finish i threw =>
    w.advance i (·.phase = .running) ({ · with phase := .ended (if threw then .threw else .returned) })
  | .grant i => w.advance i (fun c => c.phase = .waiting && w.free c) ({ · with phase := .granted })
  | .start i =>
    (w.advance i (·.phase = .granted) ({ · with phase := .running })).map fun w =>
      { w with started := w.started ++ [i] }
  | .refuse i => w.advance i (·.phase = .refused) ({ · with phase := .ended .busy })
  | .settle i =>
    w.advance i (fun c => !c.settled && c.phase.released && w.free c) ({ · with settled := true })
  | .sweep i =>
    (w.advance i (fun c => c.settled && !c.swept) ({ · with swept := true })).map fun w =>
      -- A later call may have put its own tail there.
      { w with tails := w.tails.filter fun t => !(w.calls[i]?.any (·.key = t.key) && t.call = i) }

/-- A promise job, as opposed to a call, a timer or a function's result. -/
def Action.isJob : Action → Bool
  | run _ | timeout _ | finish .. => false
  | grant _ | start _ | refuse _ | settle _ | sweep _ => true

def Drained : Prop := ∀ a : Action, a.isJob = true → w.step a = none

abbrev Reaches (w w' : PaneQueue) : Prop := Runs.Run step (fun _ _ => True) w w'

/-! ### What stays of a call -/

variable {w w' : PaneQueue} {i : Nat} {ready : QueueCall → Bool} {f : QueueCall → QueueCall}

theorem advance_eq_some : w.advance i ready f = some w' ↔
      ∃ c, w.calls[i]? = some c ∧ ready c = true ∧ w' = { w with calls := w.calls.modify i f } := by
  unfold advance
  split_ifs with h
  · obtain ⟨c, hc, hready⟩ := (Option.any_eq_true _ _).mp h
    simp only [Option.some.injEq]
    exact ⟨fun hw => ⟨c, hc, hready, hw.symm⟩, fun ⟨_, _, _, hw⟩ => hw.symm⟩
  · refine ⟨fun hw => (nomatch hw), fun ⟨c, hc, hready, _⟩ => absurd ?_ h⟩
    rw [hc]
    exact hready

variable {calls : List QueueCall} {j : Nat} {d : QueueCall}

theorem getElem?_modify (h : (calls.modify i f)[j]? = some d) :
    ∃ c, calls[j]? = some c ∧ d = if i = j then f c else c := by
  rw [List.getElem?_modify, Option.map_eq_map, Option.map_eq_some_iff] at h
  obtain ⟨c, hc, rfl⟩ := h
  exact ⟨c, hc, rfl⟩

variable {a : Action}

/-- A step adds a waiting call, or moves one: only its start makes a call run, and none comes back to the queue. -/
theorem phase_of_step (hstep : w.step a = some w') (hd : w'.calls[i]? = some d) :
    (∃ c, w.calls[i]? = some c ∧ (d.phase = .running → c.phase = .running ∨ a = .start i) ∧
      (d.phase.pending = true → c.phase.pending = true)) ∨
    i = w.calls.length ∧ (∃ key, a = .run key) ∧ d.phase = .waiting := by
  -- What a rewriting step does to the call that it meets.
  have hmoved {ready : QueueCall → Bool} {f : QueueCall → QueueCall} {m : PaneQueue} {k : Nat}
      (hm : w.advance k ready f = some m) (hf : ∀ c, ready c = true → k = i →
        ((f c).phase = .running → c.phase = .running ∨ a = .start i) ∧
          ((f c).phase.pending = true → c.phase.pending = true)) (hd : m.calls[i]? = some d) :
      ∃ c, w.calls[i]? = some c ∧ (d.phase = .running → c.phase = .running ∨ a = .start i) ∧
        (d.phase.pending = true → c.phase.pending = true) := by
    obtain ⟨c, hc, hready, rfl⟩ := advance_eq_some.mp hm
    obtain ⟨old, hold, rfl⟩ := getElem?_modify hd
    refine ⟨old, hold, ?_⟩
    split_ifs with hik
    · subst hik
      obtain rfl := Option.some.inj (hc.symm.trans hold)
      exact hf c hready rfl
    · exact ⟨.inl, id⟩
  cases a with
  | run key =>
    cases hstep
    change (w.calls ++ [_])[i]? = some d at hd
    rcases Nat.lt_trichotomy i w.calls.length with hlt | rfl | hgt
    · rw [List.getElem?_append_left hlt] at hd
      exact .inl ⟨d, hd, .inl, id⟩
    · rw [List.getElem?_concat_length] at hd
      cases hd
      exact .inr ⟨rfl, ⟨key, rfl⟩, rfl⟩
    · rw [List.getElem?_eq_none (by simp; omega)] at hd
      cases hd
  | timeout k => exact .inl (hmoved hstep (fun _ _ _ => ⟨fun h => (by cases h), fun h => (by cases h)⟩) hd)
  | finish k threw => exact .inl (hmoved hstep (fun _ _ _ => ⟨fun h => (by cases h), fun h =>
      (by cases threw <;> cases h)⟩) hd)
  | grant k =>
    refine .inl (hmoved hstep (fun c hready _ => ⟨fun h => (by cases h), fun _ => ?_⟩) hd)
    simp only [Bool.and_eq_true, decide_eq_true_eq] at hready
    rw [hready.1]
    rfl
  | start k =>
    obtain ⟨m, hm, rfl⟩ := Option.map_eq_some_iff.mp hstep
    exact .inl (hmoved hm (fun _ _ hki => ⟨fun _ => .inr (by rw [hki]), fun h => (by cases h)⟩) hd)
  | refuse k => exact .inl (hmoved hstep (fun _ _ _ => ⟨fun h => (by cases h), fun h => (by cases h)⟩) hd)
  | settle k => exact .inl (hmoved hstep (fun _ _ _ => ⟨.inl, id⟩) hd)
  | sweep k =>
    obtain ⟨m, hm, rfl⟩ := Option.map_eq_some_iff.mp hstep
    exact .inl (hmoved hm (fun _ _ _ => ⟨.inl, id⟩) hd)

theorem granted_of_start (hstep : w.step (.start i) = some w') :
    ∃ c, w.calls[i]? = some c ∧ c.phase = .granted := by
  obtain ⟨m, hm, rfl⟩ := Option.map_eq_some_iff.mp hstep
  obtain ⟨c, hc, hready, -⟩ := advance_eq_some.mp hm
  exact ⟨c, hc, of_decide_eq_true hready⟩

theorem length_of_step (hstep : w.step a = some w') : w.calls.length ≤ w'.calls.length := by
  have hmoved {ready : QueueCall → Bool} {f : QueueCall → QueueCall} {m : PaneQueue} {k : Nat}
      (hm : w.advance k ready f = some m) : w.calls.length ≤ m.calls.length := by
    obtain ⟨-, -, -, rfl⟩ := advance_eq_some.mp hm
    exact (List.length_modify ..).ge
  cases a with
  | run key =>
    cases hstep
    simp
  | start k | sweep k =>
    obtain ⟨m, hm, rfl⟩ := Option.map_eq_some_iff.mp hstep
    have hlength : w.calls.length ≤ m.calls.length := hmoved hm
    exact hlength
  | timeout k | finish k threw | grant k | refuse k | settle k => exact hmoved hstep

/-- Every call of the key before the `i`th has its tail settled. -/
def SettledBefore (w : PaneQueue) (key : String) (i : Nat) : Prop :=
  ∀ (j : Nat) (d : QueueCall), j < i → w.calls[j]? = some d → d.key = key → d.settled = true

/-- How the calls of a key hang together: a call waits for the last one before it, or all of them are settled;
a tail settles after those before it and after its own call; and a turn comes after those before it. -/
structure Chained (w : PaneQueue) : Prop where
  latest : ∀ i (c : QueueCall) k, w.calls[i]? = some c → c.prev = some k →
      k < i ∧ w.calls[k]?.any (fun d => d.key = c.key) = true ∧
    ∀ (j : Nat) (d : QueueCall), j < i → w.calls[j]? = some d → d.key = c.key → j ≤ k
  first : ∀ i (c : QueueCall), w.calls[i]? = some c → c.prev = none → w.SettledBefore c.key i
  settled : ∀ i (c : QueueCall), w.calls[i]? = some c → c.settled = true →
    c.phase.released = true ∧ w.SettledBefore c.key i
  passed : ∀ i (c : QueueCall), w.calls[i]? = some c → c.phase.passed = true → w.SettledBefore c.key i

/-- The map holds the last tail of each key that is not swept. -/
structure Mapped (w : PaneQueue) : Prop where
  last : ∀ t ∈ w.tails.rows, ∃ c : QueueCall, w.calls[t.call]? = some c ∧ c.key = t.key ∧ c.swept = false ∧
    ∀ j (d : QueueCall), w.calls[j]? = some d → d.key = t.key → j ≤ t.call
  gone : ∀ key, w.tails.find? key = none → w.SettledBefore key w.calls.length

/-- The functions that were started, in call order for each key. -/
structure Ordered (w : PaneQueue) : Prop where
  ran : ∀ i, i ∈ w.started ↔ w.calls[i]?.any (fun c : QueueCall => c.phase.ran) = true
  order : w.started.Pairwise fun i j =>
    (w.calls[i]?.map (·.key)) = (w.calls[j]?.map (·.key)) → i < j

variable {w : PaneQueue}

variable {c : QueueCall}

theorem Chained.of_free (h : w.Chained) (hc : w.calls[i]? = some c) (hfree : w.free c = true) :
    w.SettledBefore c.key i := by
  cases hprev : c.prev with
  | none => exact h.first i c hc hprev
  | some k =>
    obtain ⟨hlt, hkey, hlast⟩ := h.latest i c k hc hprev
    obtain ⟨p, hp, hkey⟩ := (Option.any_eq_true _ _).mp hkey
    have hsettled : p.settled = true := by simpa [free, hprev, hp] using hfree
    have hbefore := (h.settled k p hp hsettled).2
    intro j d hj hd hd'
    rcases Nat.lt_or_eq_of_le (hlast j d hj hd hd') with hjk | rfl
    · exact hbefore j d hjk hd (by rw [hd', of_decide_eq_true hkey])
    · obtain rfl := Option.some.inj (hp.symm.trans hd)
      exact hsettled

/-- A call that keeps its key, its place and what is settled of it keeps the chain, when its own new state
does. -/
theorem Chained.advance (h : w.Chained)
    (hf : ∀ c, w.calls[i]? = some c → (f c).key = c.key ∧ (f c).prev = c.prev ∧ (c.settled = true →
      (f c).settled = true) ∧ ((f c).settled = true → (f c).phase.released = true ∧ w.SettledBefore c.key i) ∧
      ((f c).phase.passed = true → w.SettledBefore c.key i)) :
    Chained { w with calls := w.calls.modify i f } := by
  have hsame : ∀ (j : Nat) (d : QueueCall), (w.calls.modify i f)[j]? = some d →
      ∃ c : QueueCall, w.calls[j]? = some c ∧ d.key = c.key ∧
      d.prev = c.prev ∧ (c.settled = true → d.settled = true) := by
    intro j d hd
    obtain ⟨c, hc, rfl⟩ := getElem?_modify hd
    split_ifs with hij
    · subst hij
      obtain ⟨hkey, hprev, hsettled, -⟩ := hf c hc
      exact ⟨c, hc, hkey, hprev, hsettled⟩
    · exact ⟨c, hc, rfl, rfl, id⟩
  have hbefore : ∀ key k, w.SettledBefore key k → SettledBefore { w with calls := w.calls.modify i f } key k := by
    intro key k hk j d hj hd hkey
    obtain ⟨c, hc, hd', -, hsettled⟩ := hsame j d hd
    exact hsettled (hk j c hj hc (hd' ▸ hkey))
  refine ⟨fun j d k hd hprev => ?_, fun j d hd hprev => ?_, fun j d hd hsettled => ?_, fun j d hd hpassed => ?_⟩
  · obtain ⟨c, hc, hkey, hp, -⟩ := hsame j d hd
    obtain ⟨hlt, hk, hlast⟩ := h.latest j c k hc (hp ▸ hprev)
    refine ⟨hlt, ?_, fun l e hl he hle => ?_⟩
    · obtain ⟨p, hp, hpkey⟩ := (Option.any_eq_true _ _).mp hk
      have hget : (w.calls.modify i f)[k]? = some (if i = k then f p else p) := by
        rw [List.getElem?_modify, hp]
        rfl
      obtain ⟨p', hp', hkey', -⟩ := hsame k _ hget
      obtain rfl := Option.some.inj (hp.symm.trans hp')
      simp only [hget, Option.any_some, hkey', hkey]
      exact hpkey
    · obtain ⟨e', he', hkey', -⟩ := hsame l e he
      exact hlast l e' hl he' (by rw [← hkey', hle, hkey])
  · obtain ⟨c, hc, hkey, hp, -⟩ := hsame j d hd
    rw [hkey]
    exact hbefore _ _ (h.first j c hc (hp ▸ hprev))
  · obtain ⟨c, hc, rfl⟩ := getElem?_modify hd
    split_ifs at hsettled ⊢ with hij
    · subst hij
      obtain ⟨hkey, -, -, hnew, -⟩ := hf c hc
      rw [hkey]
      exact ⟨(hnew hsettled).1, hbefore _ _ (hnew hsettled).2⟩
    · exact ⟨(h.settled j c hc hsettled).1, hbefore _ _ (h.settled j c hc hsettled).2⟩
  · obtain ⟨c, hc, rfl⟩ := getElem?_modify hd
    split_ifs at hpassed ⊢ with hij
    · subst hij
      obtain ⟨hkey, -, -, -, hnew⟩ := hf c hc
      rw [hkey]
      exact hbefore _ _ (hnew hpassed)
    · exact hbefore _ _ (h.passed j c hc hpassed)

theorem Mapped.advance (h : w.Mapped) (hf : ∀ c, w.calls[i]? = some c → (f c).key = c.key ∧ (c.settled = true →
      (f c).settled = true) ∧ (f c).swept = c.swept) :
    Mapped { w with calls := w.calls.modify i f } := by
  have hsame : ∀ (j : Nat) (d : QueueCall), (w.calls.modify i f)[j]? = some d → ∃ c : QueueCall,
      w.calls[j]? = some c ∧ d.key = c.key ∧ (c.settled = true → d.settled = true) := by
    intro j d hd
    obtain ⟨c, hc, rfl⟩ := getElem?_modify hd
    split_ifs with hij
    · subst hij
      obtain ⟨hkey, hsettled, -⟩ := hf c hc
      exact ⟨c, hc, hkey, hsettled⟩
    · exact ⟨c, hc, rfl, id⟩
  refine ⟨fun t ht => ?_, fun key hnone j d hj hd hkey => ?_⟩
  · obtain ⟨c, hc, hkey, hswept, hlast⟩ := h.last t ht
    refine ⟨if i = t.call then f c else c, ?_, ?_, ?_, fun j d hd hkey' => ?_⟩
    · simp only [List.getElem?_modify, hc]
      rfl
    · split_ifs with hi
      · rw [(hf c (hi ▸ hc)).1, hkey]
      · exact hkey
    · split_ifs with hi
      · rw [(hf c (hi ▸ hc)).2.2, hswept]
      · exact hswept
    · obtain ⟨c', hc', hkey'', -⟩ := hsame j d hd
      exact hlast j c' hc' (hkey'' ▸ hkey')
  · obtain ⟨c, hc, hkey', hsettled⟩ := hsame j d hd
    exact hsettled (h.gone key hnone j c (by simpa using hj) hc (hkey' ▸ hkey))

theorem Ordered.advance (h : w.Ordered)
    (hf : ∀ c, w.calls[i]? = some c → (f c).key = c.key ∧ (f c).phase.ran = c.phase.ran) :
    Ordered { w with calls := w.calls.modify i f } := by
  have hsame (j : Nat) : (w.calls.modify i f)[j]?.map (fun c => (c.key, c.phase.ran)) =
      w.calls[j]?.map fun c => (c.key, c.phase.ran) := by
    rw [List.getElem?_modify]
    cases hc : w.calls[j]? with
    | none => rfl
    | some c =>
      simp only [Option.map_eq_map, Option.map_some]
      split_ifs with hij
      · rw [(hf c (hij ▸ hc)).1, (hf c (hij ▸ hc)).2]
      · rfl
  have hkeys (j : Nat) : (w.calls.modify i f)[j]?.map (·.key) = w.calls[j]?.map (·.key) := by
    simpa only [Option.map_map, Function.comp_def] using congrArg (Option.map Prod.fst) (hsame j)
  refine ⟨fun j => (h.ran j).trans ?_, h.order.imp fun hlt hkey => ?_⟩
  · have hran := congrArg (Option.map Prod.snd) (hsame j)
    simp only [Option.map_map, Function.comp_def] at hran
    have hany (o : Option QueueCall) : o.any (fun c => c.phase.ran) = (o.map fun c => c.phase.ran).any id := by
      cases o <;> rfl
    rw [hany, hany, hran]
  · rw [hkeys, hkeys] at hkey
    exact hlt hkey

/-! ### What every step keeps -/

theorem getElem?_concat (h : (calls ++ [c])[j]? = some d) : calls[j]? = some d ∨ j = calls.length ∧ d = c := by
  rcases lt_or_ge j calls.length with hj | hj
  · rw [List.getElem?_append_left hj] at h
    exact .inl h
  · rw [List.getElem?_append_right hj] at h
    obtain ⟨hlt, hd⟩ := List.getElem?_eq_some_iff.mp h
    have hzero : j - calls.length = 0 := by simpa using hlt
    simp only [hzero, List.getElem_cons_zero] at hd
    exact .inr ⟨by omega, hd.symm⟩

theorem getElem?_of_old (h : calls[j]? = some d) : (calls ++ [c])[j]? = some d := by
  rw [List.getElem?_append_left (List.getElem?_eq_some_iff.mp h).1]
  exact h

structure Sound (w : PaneQueue) : Prop where
  chained : w.Chained
  mapped : w.Mapped
  ordered : w.Ordered

theorem Sound.empty : Sound empty where
  chained := ⟨fun i c k hc => by simp [PaneQueue.empty] at hc, fun i c hc => by simp [PaneQueue.empty] at hc,
    fun i c hc => by simp [PaneQueue.empty] at hc, fun i c hc => by simp [PaneQueue.empty] at hc⟩
  mapped := ⟨fun t ht => by simp [PaneQueue.empty] at ht, fun key _ j d hj => by simp [PaneQueue.empty] at hj⟩
  ordered := ⟨fun i => by simp [PaneQueue.empty], .nil⟩

section

variable (h : w.Sound)
include h

private theorem Sound.run (key : String) (hstep : w.step (.run key) = some w') : w'.Sound := by
  simp only [step, Option.some.injEq] at hstep
  subst hstep
  have hnew : (w.calls ++ [{ key, prev := (w.tails.find? key).map (·.call) }])[w.calls.length]? =
      some { key, prev := (w.tails.find? key).map (·.call) } := by simp
  have hbefore : ∀ k i, i ≤ w.calls.length → w.SettledBefore k i → SettledBefore { w with
      calls := w.calls ++ [{ key, prev := (w.tails.find? key).map (·.call) }]
      tails := w.tails.set { key, call := w.calls.length } } k i := by
    intro k i hi hk j d hj hd hkey
    rcases getElem?_concat hd with hd | ⟨rfl, -⟩
    · exact hk j d hj hd hkey
    · omega
  have hlt {i : Nat} {c : QueueCall} (hc : w.calls[i]? = some c) : i < w.calls.length :=
    (List.getElem?_eq_some_iff.mp hc).1
  refine ⟨⟨fun i c k hc hprev => ?_, fun i c hc hprev => ?_, fun i c hc hsettled => ?_, fun i c hc hpassed => ?_⟩,
    ⟨fun t ht => ?_, fun k hnone => ?_⟩, ⟨fun i => ?_, ?_⟩⟩
  · rcases getElem?_concat hc with hc | ⟨rfl, rfl⟩
    · obtain ⟨hki, hkey, hlast⟩ := h.chained.latest i c k hc hprev
      refine ⟨hki, ?_, fun j d hj hd hd' => ?_⟩
      · obtain ⟨p, hp, hpkey⟩ := (Option.any_eq_true _ _).mp hkey
        rw [getElem?_of_old hp]
        exact hpkey
      · rcases getElem?_concat hd with hd | ⟨rfl, -⟩
        · exact hlast j d hj hd hd'
        · exact absurd hj (by have := hlt hc; omega)
    · obtain ⟨t, ht, rfl⟩ := Option.map_eq_some_iff.mp hprev
      obtain ⟨c', hc', hkey', -, hlast⟩ := h.mapped.last t (Table.mem_of_find? ht)
      have htkey : t.key = key := Table.key_of_find? ht
      refine ⟨hlt hc', ?_, fun j d hj hd hd' => ?_⟩
      · rw [getElem?_of_old hc']
        simpa using hkey'.trans htkey
      · rcases getElem?_concat hd with hd | ⟨rfl, -⟩
        · exact hlast j d hd (hd'.trans htkey.symm)
        · exact absurd hj (lt_irrefl _)
  · rcases getElem?_concat hc with hc | ⟨rfl, rfl⟩
    · exact hbefore _ _ (hlt hc).le (h.chained.first i c hc hprev)
    · exact hbefore _ _ le_rfl (h.mapped.gone key (by simpa using hprev))
  · rcases getElem?_concat hc with hc | ⟨rfl, rfl⟩
    · obtain ⟨hreleased, hs⟩ := h.chained.settled i c hc hsettled
      exact ⟨hreleased, hbefore _ _ (hlt hc).le hs⟩
    · cases hsettled
  · rcases getElem?_concat hc with hc | ⟨rfl, rfl⟩
    · exact hbefore _ _ (hlt hc).le (h.chained.passed i c hc hpassed)
    · cases hpassed
  · rcases Table.mem_set.mp ht with rfl | ⟨ht, hne⟩
    · refine ⟨_, hnew, rfl, rfl, fun j d hd _ => ?_⟩
      rcases getElem?_concat hd with hd | ⟨rfl, -⟩
      · exact (hlt hd).le
      · exact le_rfl
    · obtain ⟨c, hc, hkey, hswept, hlast⟩ := h.mapped.last t ht
      refine ⟨c, getElem?_of_old hc, hkey, hswept, fun j d hd hd' => ?_⟩
      rcases getElem?_concat hd with hd | ⟨rfl, rfl⟩
      · exact hlast j d hd hd'
      · exact absurd hd'.symm hne
  · rw [Table.find?_set] at hnone
    split_ifs at hnone with hkey
    intro j d hj hd hd'
    rcases getElem?_concat hd with hd | ⟨rfl, rfl⟩
    · exact h.mapped.gone k hnone j d (hlt hd) hd hd'
    · exact absurd hd' hkey
  · refine (h.ordered.ran i).trans ?_
    rcases lt_trichotomy i w.calls.length with hi | rfl | hi
    · rw [List.getElem?_append_left hi]
    · rw [hnew, List.getElem?_eq_none le_rfl]
      rfl
    · rw [List.getElem?_eq_none hi.le, List.getElem?_eq_none]
      rw [List.length_append]
      exact Nat.succ_le_of_lt hi
  · refine h.ordered.order.imp_of_mem fun {i j} hi hj hlt' hkeys => hlt' ?_
    obtain ⟨c, hc, -⟩ := (Option.any_eq_true _ _).mp ((h.ordered.ran i).mp hi)
    obtain ⟨d, hd, -⟩ := (Option.any_eq_true _ _).mp ((h.ordered.ran j).mp hj)
    rw [getElem?_of_old hc, getElem?_of_old hd] at hkeys
    rw [hc, hd]
    exact hkeys

private theorem Sound.advance (hstep : w.advance i ready f = some w')
    (hf : ∀ c, w.calls[i]? = some c → ready c = true → (f c).key = c.key ∧ (f c).prev = c.prev ∧
      (f c).swept = c.swept ∧ (f c).phase.ran = c.phase.ran ∧ (c.settled = true →
      (f c).settled = true) ∧ ((f c).settled = true → (f c).phase.released = true ∧ w.SettledBefore c.key i) ∧
      ((f c).phase.passed = true → w.SettledBefore c.key i)) :
    w'.Sound := by
  obtain ⟨c, hc, hready, rfl⟩ := advance_eq_some.mp hstep
  have hf' : ∀ c', w.calls[i]? = some c' → ready c' = true := fun c' hc' =>
    Option.some.inj (hc.symm.trans hc') ▸ hready
  refine ⟨h.chained.advance fun c hc => ?_, h.mapped.advance fun c hc => ?_, h.ordered.advance fun c hc => ?_⟩
  · obtain ⟨hkey, hprev, -, -, hsettled, hnew, hpassed⟩ := hf c hc (hf' c hc)
    exact ⟨hkey, hprev, hsettled, hnew, hpassed⟩
  · obtain ⟨hkey, -, hswept, -, hsettled, -⟩ := hf c hc (hf' c hc)
    exact ⟨hkey, hsettled, hswept⟩
  · obtain ⟨hkey, -, -, hran, -⟩ := hf c hc (hf' c hc)
    exact ⟨hkey, hran⟩

private theorem Sound.start {i : Nat} {w' : PaneQueue} (hstep : w.step (.start i) = some w') : w'.Sound := by
  obtain ⟨m, hm, rfl⟩ := Option.map_eq_some_iff.mp hstep
  obtain ⟨c, hc, hready, rfl⟩ := advance_eq_some.mp hm
  have hphase : c.phase = .granted := of_decide_eq_true hready
  have hbefore := h.chained.passed i c hc (by rw [hphase]; rfl)
  have hcall : ∀ c', w.calls[i]? = some c' → c' = c := fun c' hc' => Option.some.inj (hc'.symm.trans hc)
  have hchained : Chained { w with calls := w.calls.modify i ({ · with phase := .running }) } := by
    refine h.chained.advance fun c' hc' => ?_
    obtain rfl := hcall c' hc'
    refine ⟨rfl, rfl, id, fun hsettled => ?_, fun _ => hbefore⟩
    have hreleased := (h.chained.settled i c' hc hsettled).1
    rw [hphase] at hreleased
    cases hreleased
  refine ⟨⟨hchained.latest, hchained.first, hchained.settled, hchained.passed⟩, ?_, ?_⟩
  · have hmapped := h.mapped.advance (i := i) (f := ({ · with phase := .running })) fun c' hc' => ⟨rfl, id, rfl⟩
    exact ⟨hmapped.last, hmapped.gone⟩
  · have hkeys (j : Nat) : (w.calls.modify i ({ · with phase := .running }))[j]?.map (·.key) =
        w.calls[j]?.map (·.key) := by
      rw [List.getElem?_modify]
      cases w.calls[j]? with
      | none => rfl
      | some d => simp only [Option.map_eq_map, Option.map_some]; split_ifs <;> rfl
    refine ⟨fun j => ?_, List.pairwise_append.mpr ⟨h.ordered.order.imp fun hlt hkey => ?_,
      List.pairwise_singleton .., fun j hj k hk hkey => ?_⟩⟩
    · rw [List.mem_append, List.mem_singleton, h.ordered.ran j, List.getElem?_modify]
      by_cases hij : j = i
      · subst hij
        simp [hc, CallPhase.ran]
      · have hne : i ≠ j := fun hsame => hij hsame.symm
        cases w.calls[j]? <;> simp [hij, hne]
    · rw [hkeys, hkeys] at hkey
      exact hlt hkey
    · obtain rfl := List.mem_singleton.mp hk
      rw [hkeys, hkeys] at hkey
      obtain ⟨d, hd, hran⟩ := (Option.any_eq_true _ _).mp ((h.ordered.ran j).mp hj)
      rw [hd, hc, Option.map_some, Option.map_some, Option.some.injEq] at hkey
      rcases lt_trichotomy j k with hjk | rfl | hjk
      · exact hjk
      · obtain rfl := hcall d hd
        rw [hphase] at hran
        cases hran
      · -- a call started later would have waited for this one
        have hpassed : d.phase.passed = true := by
          cases hdp : d.phase with
          | ended r => cases r <;> simp_all [CallPhase.ran, CallPhase.passed]
          | _ => simp_all [CallPhase.ran, CallPhase.passed]
        have hsettled := h.chained.passed j d hd hpassed k c hjk hc hkey.symm
        have hreleased := (h.chained.settled k c hc hsettled).1
        rw [hphase] at hreleased
        cases hreleased

private theorem Sound.sweep (hstep : w.step (.sweep i) = some w') : w'.Sound := by
  obtain ⟨m, hm, rfl⟩ := Option.map_eq_some_iff.mp hstep
  obtain ⟨c, hc, hready, rfl⟩ := advance_eq_some.mp hm
  simp only [Bool.and_eq_true, Bool.not_eq_eq_eq_not, Bool.not_true] at hready
  have hcall : ∀ c', w.calls[i]? = some c' → c' = c := fun c' hc' => Option.some.inj (hc'.symm.trans hc)
  have hget : (w.calls.modify i ({ · with swept := true }))[i]? = some { c with swept := true } := by
    simp [hc]
  have hsame {j : Nat} {d : QueueCall} (hd : (w.calls.modify i ({ · with swept := true }))[j]? = some d) :
      ∃ c' : QueueCall, w.calls[j]? = some c' ∧ d.key = c'.key ∧ d.settled = c'.settled := by
    obtain ⟨c', hc', rfl⟩ := getElem?_modify hd
    refine ⟨c', hc', ?_⟩
    split_ifs <;> exact ⟨rfl, rfl⟩
  have hchained : Chained { w with calls := w.calls.modify i ({ · with swept := true }) } :=
    h.chained.advance fun c' hc' =>
      ⟨rfl, rfl, id, h.chained.settled i c' hc', h.chained.passed i c' hc'⟩
  have hordered : Ordered { w with calls := w.calls.modify i ({ · with swept := true }) } :=
    h.ordered.advance fun c' hc' => ⟨rfl, rfl⟩
  refine ⟨⟨hchained.latest, hchained.first, hchained.settled, hchained.passed⟩, ⟨fun t ht => ?_, fun key hnone => ?_⟩,
    ⟨hordered.ran, hordered.order⟩⟩
  · simp only [Table.rows_filter, List.mem_filter, hget, Option.any_some, Bool.not_eq_eq_eq_not, Bool.not_true,
      Bool.and_eq_false_imp, decide_eq_true_eq, decide_eq_false_iff_not] at ht
    obtain ⟨ht, hother⟩ := ht
    obtain ⟨c', hc', hkey, hswept, hlast⟩ := h.mapped.last t ht
    have hne : i ≠ t.call := fun hi => by
      subst hi
      obtain rfl := hcall c' hc'
      exact hother hkey rfl
    refine ⟨c', ?_, hkey, hswept, fun j d hd hd' => ?_⟩
    · simp only [List.getElem?_modify, hc', if_neg hne]
      rfl
    · obtain ⟨e, he, hkey', -⟩ := hsame hd
      exact hlast j e he (hkey' ▸ hd')
  · intro j d hj hd hd'
    obtain ⟨e, he, hkey, hsettled⟩ := hsame hd
    rw [hsettled]
    rw [List.length_modify] at hj
    rw [Table.find?_filter] at hnone
    cases hold : w.tails.find? key with
    | none => exact h.mapped.gone key hold j e hj he (hkey ▸ hd')
    | some t =>
      simp only [hold, hget, Option.any_some, Option.filter_eq_none_iff, Option.some.injEq, forall_eq',
        Bool.not_eq_eq_eq_not, Bool.not_true, Bool.not_eq_false, Bool.and_eq_true, decide_eq_true_eq] at hnone
      obtain ⟨htkey, rfl⟩ := hnone
      obtain ⟨c', hc', hck, -, hlast⟩ := h.mapped.last t (Table.mem_of_find? hold)
      obtain rfl := hcall c' hc'
      have hkeys : e.key = c'.key := by rw [← hkey, hd', hck, Table.key_of_find? hold]
      rcases Nat.lt_or_eq_of_le (hlast j e he (hkeys.trans hck)) with hlt | rfl
      · exact (h.chained.settled _ c' hc hready.1).2 j e hlt he hkeys
      · obtain rfl := hcall e he
        exact hready.1

theorem Sound.step (hstep : w.step a = some w') : w'.Sound := by
  cases a with
  | run key => exact h.run key hstep
  | start i => exact h.start hstep
  | sweep i => exact h.sweep hstep
  | timeout i =>
    refine h.advance hstep fun c hc hready => ?_
    have hphase : c.phase = .waiting := of_decide_eq_true hready
    refine ⟨rfl, rfl, rfl, by rw [hphase]; rfl, id, fun hsettled => ?_, fun hpassed => by cases hpassed⟩
    have hreleased := (h.chained.settled i c hc hsettled).1
    rw [hphase] at hreleased
    cases hreleased
  | refuse i =>
    refine h.advance hstep fun c hc hready => ?_
    have hphase : c.phase = .refused := of_decide_eq_true hready
    exact ⟨rfl, rfl, rfl, by rw [hphase]; rfl, id, fun hsettled => ⟨rfl, (h.chained.settled i c hc hsettled).2⟩,
      fun hpassed => by cases hpassed⟩
  | finish i threw =>
    refine h.advance hstep fun c hc hready => ?_
    have hphase : c.phase = .running := of_decide_eq_true hready
    exact ⟨rfl, rfl, rfl, by rw [hphase]; cases threw <;> rfl, id,
      fun hsettled => ⟨rfl, (h.chained.settled i c hc hsettled).2⟩,
      fun _ => h.chained.passed i c hc (by rw [hphase]; rfl)⟩
  | grant i =>
    refine h.advance hstep fun c hc hready => ?_
    obtain ⟨hwaiting, hfree⟩ := Bool.and_eq_true_iff.mp hready
    have hphase : c.phase = .waiting := of_decide_eq_true hwaiting
    refine ⟨rfl, rfl, rfl, by rw [hphase]; rfl, id, fun hsettled => ?_, fun _ => h.chained.of_free hc hfree⟩
    have hreleased := (h.chained.settled i c hc hsettled).1
    rw [hphase] at hreleased
    cases hreleased
  | settle i =>
    refine h.advance hstep fun c hc hready => ?_
    simp only [Bool.and_eq_true] at hready
    exact ⟨rfl, rfl, rfl, rfl, fun _ => rfl, fun _ => ⟨hready.1.2, h.chained.of_free hc hready.2⟩,
      h.chained.passed i c hc⟩

end

/-! ### Promise jobs come to an end -/

def QueueCall.jobs (c : QueueCall) : Nat :=
  (match c.phase with
    | .waiting => 2
    | .granted | .refused => 1
    | .running | .ended _ => 0) +
  (if c.settled then 0 else 1) + if c.swept then 0 else 1

def jobs (w : PaneQueue) : Nat := (w.calls.map QueueCall.jobs).sum

theorem sum_modify_lt (hc : calls[i]? = some c) (hf : QueueCall.jobs (f c) < QueueCall.jobs c) :
    ((calls.modify i f).map QueueCall.jobs).sum < (calls.map QueueCall.jobs).sum := by
  induction calls generalizing i with
  | nil => simp at hc
  | cons d calls ih =>
    cases i with
    | zero =>
      obtain rfl : d = c := by simpa using hc
      simpa using hf
    | succ i =>
      have hrest := ih (by simpa using hc)
      simpa using hrest

theorem jobs_advance (hstep : w.advance i ready f = some w')
    (hf : ∀ c, ready c = true → QueueCall.jobs (f c) < QueueCall.jobs c) : w'.jobs < w.jobs := by
  obtain ⟨c, hc, hready, rfl⟩ := advance_eq_some.mp hstep
  exact sum_modify_lt hc (hf c hready)

theorem jobs_step (hjob : a.isJob = true) (hstep : w.step a = some w') : w'.jobs < w.jobs := by
  cases a with
  | run | timeout | finish => cases hjob
  | grant i =>
    refine jobs_advance hstep fun c hready => ?_
    have hphase : c.phase = .waiting := of_decide_eq_true (Bool.and_eq_true_iff.mp hready).1
    simp [QueueCall.jobs, hphase]
  | start i =>
    obtain ⟨m, hm, rfl⟩ := Option.map_eq_some_iff.mp hstep
    change m.jobs < w.jobs
    refine jobs_advance hm fun c hready => ?_
    simp [QueueCall.jobs, of_decide_eq_true hready]
  | refuse i =>
    refine jobs_advance hstep fun c hready => ?_
    simp [QueueCall.jobs, of_decide_eq_true hready]
  | settle i =>
    refine jobs_advance hstep fun c hready => ?_
    simp only [Bool.and_eq_true, Bool.not_eq_eq_eq_not, Bool.not_true] at hready
    simp [QueueCall.jobs, hready.1.1]
  | sweep i =>
    obtain ⟨m, hm, rfl⟩ := Option.map_eq_some_iff.mp hstep
    change m.jobs < w.jobs
    refine jobs_advance hm fun c hready => ?_
    simp only [Bool.and_eq_true, Bool.not_eq_eq_eq_not, Bool.not_true] at hready
    simp [QueueCall.jobs, hready.2]

theorem exists_drained (w : PaneQueue) : ∃ w', Runs.Run step (fun _ a => a.isJob = true) w w' ∧ w'.Drained := by
  induction hn : w.jobs using Nat.strong_induction_on generalizing w with
  | h n ih =>
    by_cases hdone : w.Drained
    · exact ⟨w, .refl, hdone⟩
    · simp only [Drained, not_forall] at hdone
      obtain ⟨a, hjob, hstep⟩ := hdone
      obtain ⟨m, hm⟩ := Option.ne_none_iff_exists'.mp hstep
      obtain ⟨w', hrun, hdrained⟩ := ih m.jobs (hn ▸ jobs_step hjob hm) m rfl
      exact ⟨w', Runs.Run.trans (.next .refl hjob hm) hrun, hdrained⟩

/-! ### The queue's promise -/

theorem Reaches.sound (h : Reaches w w') (hw : w.Sound) : w'.Sound :=
  Runs.Run.invariant (P := Sound) (fun _ _ _ hm _ hstep => hm.step hstep) h hw

/-- The call was rejected with `PaneBusyError`, or is about to be. -/
def Rejected (w : PaneQueue) (i : Nat) : Prop :=
  ∃ c : QueueCall, w.calls[i]? = some c ∧ (c.phase = .refused ∨ c.phase = .ended .busy)

private theorem Rejected.advance (h : w.Rejected i) (hstep : w.advance j ready f = some w')
    (hf : ∀ c : QueueCall, c.phase = .refused ∨ c.phase = .ended .busy → ready c = true →
      (f c).phase = .refused ∨ (f c).phase = .ended .busy) :
    w'.Rejected i := by
  obtain ⟨c, hc, hphase⟩ := h
  obtain ⟨d, hd, hready, rfl⟩ := advance_eq_some.mp hstep
  by_cases hij : j = i
  · subst hij
    obtain rfl := Option.some.inj (hc.symm.trans hd)
    exact ⟨f c, by simp [hc], hf c hphase hready⟩
  · exact ⟨c, by simp [hc, hij], hphase⟩

theorem Rejected.step (h : w.Rejected i) (hstep : w.step a = some w') : w'.Rejected i := by
  cases a with
  | run key =>
    obtain ⟨c, hc, hphase⟩ := h
    simp only [PaneQueue.step, Option.some.injEq] at hstep
    subst hstep
    exact ⟨c, getElem?_of_old hc, hphase⟩
  | timeout j => exact h.advance hstep fun _ _ _ => .inl rfl
  | refuse j => exact h.advance hstep fun _ _ _ => .inr rfl
  | grant j | finish j threw =>
    refine h.advance hstep fun c hphase hready => ?_
    rcases hphase with hphase | hphase <;> simp [hphase] at hready
  | start j =>
    obtain ⟨m, hm, rfl⟩ := Option.map_eq_some_iff.mp hstep
    have hrejected : m.Rejected i := h.advance hm fun c hphase hready => by
      rcases hphase with hphase | hphase <;> simp [hphase] at hready
    exact hrejected
  | settle j => exact h.advance hstep fun _ hphase _ => hphase
  | sweep j =>
    obtain ⟨m, hm, rfl⟩ := Option.map_eq_some_iff.mp hstep
    have hrejected : m.Rejected i := h.advance hm fun _ hphase _ => hphase
    exact hrejected

theorem Sound.exists_running (h : w.Sound) (hdrained : w.Drained) (hc : w.calls[i]? = some c)
    (hnot : c.settled = false) :
    ∃ (j : Nat) (d : QueueCall), j ≤ i ∧ w.calls[j]? = some d ∧ d.key = c.key ∧ d.phase = .running := by
  induction i using Nat.strong_induction_on generalizing c with
  | h i ih =>
    cases hfree : w.free c with
    | false =>
      -- it waits for a tail that is not settled either
      cases hprev : c.prev with
      | none => simp [free, hprev] at hfree
      | some k =>
        obtain ⟨hlt, hkey, -⟩ := h.chained.latest i c k hc hprev
        obtain ⟨p, hp, hkey⟩ := (Option.any_eq_true _ _).mp hkey
        have hpnot : p.settled = false := by simpa [free, hprev, hp] using hfree
        obtain ⟨j, d, hj, hd, hdk, hrun⟩ := ih k hlt hp hpnot
        exact ⟨j, d, hj.trans hlt.le, hd, hdk.trans (of_decide_eq_true hkey), hrun⟩
    | true =>
      -- it has its turn, so one of its own jobs is left unless it runs
      cases hphase : c.phase with
      | running => exact ⟨i, c, le_rfl, hc, rfl, hphase⟩
      | waiting =>
        have hgrant := hdrained (.grant i) rfl
        simp [PaneQueue.step, PaneQueue.advance, hc, hphase, hfree] at hgrant
      | granted =>
        have hstart := hdrained (.start i) rfl
        simp [PaneQueue.step, PaneQueue.advance, hc, hphase] at hstart
      | refused =>
        have hrefuse := hdrained (.refuse i) rfl
        simp [PaneQueue.step, PaneQueue.advance, hc, hphase] at hrefuse
      | ended r =>
        have hsettle := hdrained (.settle i) rfl
        simp [PaneQueue.step, PaneQueue.advance, hc, hphase, hnot, hfree, CallPhase.released] at hsettle

theorem passed_of_ran {phase : CallPhase} (h : phase.ran = true) : phase.passed = true := by
  cases phase with
  | ended r =>
    cases r with
    | busy => cases h
    | _ => rfl
  | _ => first | rfl | cases h

/-- Pane writes never interleave: of each key one function runs at a time; functions start in call order, each
after every earlier call of its key is over; a rejected call's function never runs, then or later; where no
promise job is left a call waits only for one of its key that runs; and once no call is outstanding the map
is empty. -/
theorem writes_apart {w w' : PaneQueue} (h : Reaches empty w) (h' : Reaches w w') :
    (∀ (i j : Nat) (c d : QueueCall), w.calls[i]? = some c → w.calls[j]? = some d → c.key = d.key →
      c.phase = .running →
      d.phase = .running → i = j) ∧
    (w.started.Pairwise fun i j => (w.calls[i]?.map (·.key)) = (w.calls[j]?.map (·.key)) → i < j) ∧
    (∀ i ∈ w.started, ∃ c : QueueCall, w.calls[i]? = some c ∧ ∀ (j : Nat) (d : QueueCall), j < i →
      w.calls[j]? = some d →
      d.key = c.key → ∃ result, d.phase = .ended result) ∧
    (∀ i, w.Rejected i → i ∉ w'.started) ∧
    (w.Drained → ∀ (i : Nat) (c : QueueCall), w.calls[i]? = some c → c.phase = .running ∨
      (∃ result, c.phase = .ended result) ∨ ∃ (j : Nat) (d : QueueCall), j < i ∧ w.calls[j]? = some d ∧
      d.key = c.key ∧ d.phase = .running) ∧
    (w.Drained → (∀ c ∈ w.calls, ∃ result, c.phase = .ended result) → w.tails.rows = []) := by
  have hw := h.sound .empty
  have hover {i : Nat} {c : QueueCall} (hc : w.calls[i]? = some c) (hsettled : c.settled = true) :
      ∃ result, c.phase = .ended result := by
    have hreleased := (hw.chained.settled i c hc hsettled).1
    cases hphase : c.phase with
    | ended result => exact ⟨result, rfl⟩
    | _ =>
      rw [hphase] at hreleased
      cases hreleased
  refine ⟨fun i j c d hc hd hkey hrunc hrund => ?_, hw.ordered.order, fun i hi => ?_, fun i hi hstarted => ?_,
    fun hdrained i c hc => ?_, fun hdrained hall => ?_⟩
  · rcases lt_trichotomy i j with hij | rfl | hij
    · obtain ⟨r, hr⟩ := hover hc (hw.chained.passed j d hd (by rw [hrund]; rfl) i c hij hc hkey)
      simp [hrunc] at hr
    · rfl
    · obtain ⟨r, hr⟩ := hover hd (hw.chained.passed i c hc (by rw [hrunc]; rfl) j d hij hd hkey.symm)
      simp [hrund] at hr
  · obtain ⟨c, hc, hran⟩ := (Option.any_eq_true _ _).mp ((hw.ordered.ran i).mp hi)
    exact ⟨c, hc, fun j d hj hd hkey =>
      hover hd (hw.chained.passed i c hc (passed_of_ran hran) j d hj hd hkey)⟩
  · obtain ⟨c, hc, hphase⟩ := Runs.Run.invariant (P := fun w => w.Rejected i)
      (fun _ _ _ hm _ hstep => hm.step hstep) h' hi
    have hran := ((h'.sound hw).ordered.ran i).mp hstarted
    rw [hc, Option.any_some] at hran
    rcases hphase with hphase | hphase <;> simp [hphase, CallPhase.ran] at hran
  · cases hphase : c.phase with
    | running => exact .inl rfl
    | ended result => exact .inr (.inl ⟨result, rfl⟩)
    | _ =>
      have hnot : c.settled = false := by
        by_contra hsettled
        obtain ⟨r, hr⟩ := hover hc (by simpa using hsettled)
        simp [hphase] at hr
      obtain ⟨j, d, hj, hd, hkey, hrun⟩ := hw.exists_running hdrained hc hnot
      rcases Nat.lt_or_eq_of_le hj with hlt | rfl
      · exact .inr (.inr ⟨j, d, hlt, hd, hkey, hrun⟩)
      · obtain rfl := Option.some.inj (hc.symm.trans hd)
        simp [hphase] at hrun
  · refine List.eq_nil_iff_forall_not_mem.mpr fun t ht => ?_
    obtain ⟨c, hc, hkey, hswept, -⟩ := hw.mapped.last t ht
    obtain ⟨result, hphase⟩ := hall c (List.mem_of_getElem? hc)
    cases hsettled : c.settled with
    | true =>
      have hsweep := hdrained (.sweep t.call) rfl
      simp [PaneQueue.step, PaneQueue.advance, hc, hsettled, hswept] at hsweep
    | false =>
      obtain ⟨j, d, -, hd, -, hrun⟩ := hw.exists_running hdrained hc hsettled
      obtain ⟨result, hphase⟩ := hall d (List.mem_of_getElem? hd)
      simp [hrun] at hphase

/-- Two calls of one pane, the second given up while the first runs. -/
theorem writes_apart_timeout : ∃ w, Reaches empty w ∧ w.Rejected 1 ∧ 1 ∉ w.started := by
  have hexec : ∃ w, Runs.Run step (fun _ _ => True) empty w ∧ (w.calls[1]?.any (·.phase = .refused)) = true :=
    have hends : (Runs.exec step (fun _ _ => True) empty [.run "p", .grant 0, .start 0, .run "p", .timeout 1]).any
        (fun w => w.calls[1]?.any (·.phase = .refused)) = true := by decide
    Runs.exists_run_of_exec hends
  obtain ⟨w, hw, hrejected⟩ := hexec
  obtain ⟨c, hc, hphase⟩ := (Option.any_eq_true _ _).mp hrejected
  have h : w.Rejected 1 := ⟨c, hc, .inl (of_decide_eq_true hphase)⟩
  exact ⟨w, hw, h, (writes_apart hw .refl).2.2.2.1 1 h⟩

end PaneQueue

end Sightr
