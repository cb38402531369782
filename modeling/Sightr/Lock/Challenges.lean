import Sightr.Lib.Runs
import Sightr.Lib.Table
import Mathlib.Algebra.Order.Ring.Int

/-!
# Single-use challenges

`createChallenges` of `bridge/webauthn.ts`: a map of the challenges that were issued and not used, each with its
purpose and its last moment. Issuing one first drops the expired ones, and then the oldest until one more fits.
-/

namespace Sightr

namespace Challenges

open Keyed (Table)

def CHALLENGE_TTL_MS : Int := 60000

inductive Purpose
  | register | assert
  deriving DecidableEq

/-- An entry of the map, the map being in insertion order. -/
structure Challenge where
  challenge : String
  purpose : Purpose
  expires : Int
  deriving DecidableEq

def evict : List Challenge → List Challenge
  | [] => []
  | oldest :: rest => if 64 ≤ (oldest :: rest).length then evict rest else oldest :: rest

theorem evict_suffix (l : List Challenge) : evict l <:+ l := by
  induction l with
  | nil => exact List.suffix_rfl
  | cons oldest rest ih =>
    rw [evict]
    split_ifs
    · exact ih.trans (List.suffix_cons _ _)
    · exact List.suffix_rfl

theorem length_evict (l : List Challenge) : (evict l).length < 64 := by
  induction l with
  | nil => decide
  | cons oldest rest ih =>
    rw [evict]
    split_ifs with hfull
    · exact ih
    · exact not_le.mp hfull

theorem evict_of_lt {l : List Challenge} (h : l.length < 64) : evict l = l := by
  cases l with
  | nil => rfl
  | cons oldest rest => rw [evict, if_neg (not_le.mpr h)]

abbrev Map := Table Challenge.challenge

variable (map : Map)

def unexpired (time : Int) : Map := map.filter fun c => time ≤ c.expires

def prune (time : Int) : Map :=
  ⟨evict (unexpired map time).rows, ((evict_suffix _).sublist.map _).nodup (unexpired map time).nodup⟩

/-- `issue`: the clock is read for the pruning, and again for the last moment. -/
def issue (challenge : String) (purpose : Purpose) (time later : Int) : Map :=
  (prune map time).set ⟨challenge, purpose, later + CHALLENGE_TTL_MS⟩

/-- `consume`: the answer, and the map without the challenge. -/
def consume (challenge : String) (purpose : Purpose) (time : Int) : Bool × Map :=
  ((map.find? challenge).any fun c => c.purpose = purpose && time ≤ c.expires,
    map.filter fun c => c.challenge ≠ challenge)

/-! ### Calls -/

inductive Event
  | issued (challenge : String) (purpose : Purpose) (time : Int)
  | consumed (challenge : String) (purpose : Purpose) (time : Int) (ok : Bool)
  /-- An unexpired challenge made room for a new one. -/
  | evicted (challenge : String) (time : Int)
  deriving DecidableEq

namespace Event

def isIssue : Event → Bool
  | issued .. => true
  | _ => false

def issues (challenge : String) : Event → Bool
  | issued c _ _ => c = challenge
  | _ => false

def ends (challenge : String) : Event → Bool
  | consumed c _ _ _ | evicted c _ => c = challenge
  | _ => false

def accepts (challenge : String) : Event → Bool
  | consumed c _ _ ok => c = challenge && ok
  | _ => false

end Event

variable {log past : List Event} {challenge : String} {purpose : Purpose} {time now later : Int} {event : Event}
  {newer : Nat}

/-- The challenge was issued and neither presented nor evicted since; so many were issued behind it. -/
def Live (log : List Event) (challenge : String) (purpose : Purpose) (time : Int) (newer : Nat) : Prop :=
  ∃ since before, log = since ++ .issued challenge purpose time :: before ∧
    (∀ event ∈ since, event.ends challenge = false) ∧ since.countP Event.isIssue = newer

section

variable (h : Live log challenge purpose time newer)
include h

theorem Live.cons (hevent : event.ends challenge = false) :
    Live (event :: log) challenge purpose time (newer + if event.isIssue then 1 else 0) := by
  obtain ⟨since, before, rfl, hsince, rfl⟩ := h
  refine ⟨event :: since, before, rfl, ?_, List.countP_cons ..⟩
  intro e he
  rcases List.mem_cons.mp he with rfl | he
  · exact hevent
  · exact hsince e he

theorem Live.issues : log.any (·.issues challenge) = true := by
  obtain ⟨since, before, rfl, -, -⟩ := h
  simp [Event.issues]

end

/-- What the calls promise about an event, given those before it. -/
def Event.Lawful (past : List Event) : Event → Prop
  | .issued .. | .consumed _ _ _ false => True
  | .consumed challenge purpose at_ true =>
    ∃ time newer, Live past challenge purpose time newer ∧ time ≤ at_ ∧ at_ ≤ time + CHALLENGE_TTL_MS
  | .evicted challenge at_ =>
    ∃ purpose time newer, Live past challenge purpose time newer ∧ at_ ≤ time + CHALLENGE_TTL_MS ∧ 63 ≤ newer

def Lawful : List Event → Prop
  | [] => True
  | event :: past => event.Lawful past ∧ Lawful past

theorem Lawful.of_append {after : List Event} (h : Lawful (after ++ event :: past)) : event.Lawful past := by
  induction after with
  | nil => exact h.1
  | cons _ after ih => exact ih h.2

structure World where
  map : Map
  now : Int
  log : List Event

namespace World

def start (now : Int) : World := ⟨.empty, now, []⟩

inductive Action
  | tick (ms : Nat)
  /-- The clock may go on between the pruning and the last moment. -/
  | issue (challenge : String) (purpose : Purpose) (ms : Nat)
  | consume (challenge : String) (purpose : Purpose)

/-- The unexpired challenges that make room for the next one. -/
def evictions (w : World) : List Event :=
  let kept := (unexpired w.map w.now).rows
  ((kept.take (kept.length - (prune w.map w.now).rows.length)).map fun c => .evicted c.challenge w.now).reverse

def step (w : World) : Action → Option World
  | .tick ms => some { w with now := w.now + ms }
  | .issue challenge purpose ms =>
    if w.log.any (·.issues challenge) then none
    else
      some {
        map := issue w.map challenge purpose w.now (w.now + ms)
        now := w.now + ms
        log := .issued challenge purpose (w.now + ms) :: (w.evictions ++ w.log) }
  | .consume challenge purpose =>
    let (ok, map) := Challenges.consume w.map challenge purpose w.now
    some { w with map, log := .consumed challenge purpose w.now ok :: w.log }

/-! ### The map and the calls -/

/-- The entry's challenge is live, with at least as many issued behind it as there are entries behind it. -/
def Kept (now : Int) (log : List Event) (c : Challenge) (behind : Nat) : Prop :=
  ∃ time newer, Live log c.challenge c.purpose time newer ∧ behind ≤ newer ∧
    c.expires = time + CHALLENGE_TTL_MS ∧ time ≤ now

def Queued (now : Int) (log : List Event) : List Challenge → Prop
  | [] => True
  | c :: rest => Kept now log c rest.length ∧ Queued now log rest

variable {w w' : World} {l l' : List Challenge} {c : Challenge} {m n : Nat}

theorem Kept.mono (h : Kept now log c n) (hle : m ≤ n) : Kept now log c m := by
  obtain ⟨time, newer, hlive, hbehind, hexpires, hnow⟩ := h
  exact ⟨time, newer, hlive, hle.trans hbehind, hexpires, hnow⟩

section

variable (h : Queued now log l)
include h

theorem Queued.sublist (hsub : l'.Sublist l) : Queued now log l' := by
  induction hsub with
  | slnil => trivial
  | cons _ _ ih => exact ih h.2
  | cons_cons _ hrest ih => exact ⟨h.1.mono hrest.length_le, ih h.2⟩

theorem Queued.mem (hc : c ∈ l) : Kept now log c 0 := by
  induction l with
  | nil => cases hc
  | cons d rest ih =>
    rcases List.mem_cons.mp hc with rfl | hc
    · exact h.1.mono (Nat.zero_le _)
    · exact ih h.2 hc

theorem Queued.cons (hnow : now ≤ later) (hevent : ∀ c ∈ l, event.ends c.challenge = false) :
    Queued later (event :: log) l := by
  induction l with
  | nil => trivial
  | cons d rest ih =>
    obtain ⟨⟨time, newer, hlive, hbehind, hexpires, htime⟩, hrest⟩ := h
    refine ⟨⟨time, _, hlive.cons (hevent d List.mem_cons_self), ?_, hexpires, htime.trans hnow⟩,
      ih hrest fun c hc => hevent c (List.mem_cons_of_mem _ hc)⟩
    exact hbehind.trans (Nat.le_add_right _ _)

theorem Queued.mono (hnow : now ≤ later) : Queued later log l := by
  induction l with
  | nil => trivial
  | cons d rest ih =>
    obtain ⟨⟨time, newer, hlive, hbehind, hexpires, htime⟩, hrest⟩ := h
    exact ⟨⟨time, newer, hlive, hbehind, hexpires, htime.trans hnow⟩, ih hrest⟩

theorem Queued.issued (challenge : String) (purpose : Purpose) (hnow : now ≤ later) :
    Queued later (.issued challenge purpose later :: log)
      (l ++ [⟨challenge, purpose, later + CHALLENGE_TTL_MS⟩]) := by
  induction l with
  | nil =>
    refine ⟨⟨later, 0, ⟨[], log, rfl, fun _ he => (by cases he), rfl⟩, le_rfl, rfl, le_rfl⟩, trivial⟩
  | cons d rest ih =>
    obtain ⟨⟨time, newer, hlive, hbehind, hexpires, htime⟩, hrest⟩ := h
    refine ⟨⟨time, _, hlive.cons rfl, ?_, hexpires, htime.trans hnow⟩, ih hrest⟩
    change (rest ++ [_]).length ≤ newer + 1
    rw [List.length_append]
    exact Nat.add_le_add hbehind (le_refl 1)

end

/-- The map is not too large, its entries are live, the past is lawful, and a challenge that was accepted is gone. -/
structure Sound (w : World) : Prop where
  size : w.map.rows.length ≤ 64
  queued : Queued w.now w.log w.map.rows
  lawful : Lawful w.log
  once : ∀ c, w.log.countP (·.accepts c) ≤ 1 ∧ (0 < w.log.countP (·.accepts c) →
    (∀ e ∈ w.map.rows, e.challenge ≠ c) ∧ w.log.any (·.issues c) = true)

theorem Sound.start (now : Int) : (start now).Sound where
  size := Nat.zero_le _
  queued := trivial
  lawful := trivial
  once _ := ⟨Nat.zero_le _, fun h => absurd h (lt_irrefl _)⟩

theorem Sound.consume (h : w.Sound) (challenge : String) (purpose : Purpose)
    (hstep : w.step (.consume challenge purpose) = some w') : w'.Sound := by
  cases hstep
  have hgone : ∀ c ∈ (w.map.filter fun c => c.challenge ≠ challenge).rows,
      c ∈ w.map.rows ∧ c.challenge ≠ challenge := fun c hc => by
    obtain ⟨hmem, hne⟩ := List.mem_filter.mp hc
    exact ⟨hmem, by simpa using hne⟩
  have hsub : (w.map.filter fun c => c.challenge ≠ challenge).rows.Sublist w.map.rows := List.filter_sublist
  refine ⟨hsub.length_le.trans h.size, ?_, ⟨?_, h.lawful⟩, fun c => ?_⟩
  · refine (h.queued.sublist hsub).cons le_rfl fun c hc => ?_
    exact decide_eq_false (Ne.symm (hgone c hc).2)
  · cases hok : (w.map.find? challenge).any fun c => c.purpose = purpose && w.now ≤ c.expires with
    | false => trivial
    | true =>
      obtain ⟨c, hfound, hgood⟩ := (Option.any_eq_true _ _).mp hok
      rw [Bool.and_eq_true, decide_eq_true_eq, decide_eq_true_eq] at hgood
      obtain ⟨rfl, hunexpired⟩ := hgood
      obtain ⟨time, newer, hlive, -, hexpires, htime⟩ := h.queued.mem (Table.mem_of_find? hfound)
      rw [Table.key_of_find? hfound] at hlive
      exact ⟨time, newer, hlive, htime, hexpires ▸ hunexpired⟩
  · obtain ⟨hone, hleft⟩ := h.once c
    rw [List.countP_cons]
    by_cases haccepts : Event.accepts c (.consumed challenge purpose w.now
        ((w.map.find? challenge).any fun c => c.purpose = purpose && w.now ≤ c.expires)) = true
    · obtain ⟨hsame, hok⟩ : challenge = c ∧
          (w.map.find? challenge).any (fun c => c.purpose = purpose && w.now ≤ c.expires) = true := by
        simpa [Event.accepts] using haccepts
      subst hsame
      obtain ⟨found, hfound, -⟩ := (Option.any_eq_true _ _).mp hok
      have hnone : w.log.countP (·.accepts challenge) = 0 := by
        by_contra hsome
        exact (hleft (Nat.pos_of_ne_zero hsome)).1 found (Table.mem_of_find? hfound) (Table.key_of_find? hfound)
      obtain ⟨time, newer, hlive, -⟩ := h.queued.mem (Table.mem_of_find? hfound)
      rw [Table.key_of_find? hfound] at hlive
      refine ⟨?_, fun _ => ⟨fun e he => (hgone e he).2, ?_⟩⟩
      · rw [hnone, if_pos haccepts]
      · rw [List.any_cons, hlive.issues, Bool.or_true]
    · rw [if_neg haccepts, Nat.add_zero]
      refine ⟨hone, fun hpos => ⟨fun e he => (hleft hpos).1 e (hgone e he).1, ?_⟩⟩
      rw [List.any_cons, (hleft hpos).2, Bool.or_true]

theorem evictions_cases (h : w.map.rows.length ≤ 64) :
    w.evictions = [] ∧ (prune w.map w.now).rows = (unexpired w.map w.now).rows ∨
      ∃ oldest rest, (unexpired w.map w.now).rows = oldest :: rest ∧ rest.length = 63 ∧
        (prune w.map w.now).rows = rest ∧ w.evictions = [.evicted oldest.challenge w.now] := by
  have hsize : (unexpired w.map w.now).rows.length ≤ 64 := (List.length_filter_le _ _).trans h
  have hprune : (prune w.map w.now).rows = evict (unexpired w.map w.now).rows := rfl
  unfold evictions
  rw [hprune]
  dsimp only
  generalize (unexpired w.map w.now).rows = kept at hsize
  rcases hsize.lt_or_eq with hroom | hfull
  · rw [evict_of_lt hroom, Nat.sub_self]
    exact .inl ⟨rfl, rfl⟩
  · cases kept with
    | nil => cases hfull
    | cons oldest rest =>
      have hrest : rest.length = 63 := Nat.succ.inj hfull
      have hevict : evict (oldest :: rest) = rest := by
        rw [evict, if_pos hfull.ge, evict_of_lt (by omega)]
      refine .inr ⟨oldest, rest, rfl, hrest, hevict, ?_⟩
      rw [hevict, List.length_cons, Nat.add_sub_cancel_left]
      rfl

private theorem Sound.pruned (h : w.Sound) :
    Queued w.now (w.evictions ++ w.log) (prune w.map w.now).rows ∧ Lawful (w.evictions ++ w.log) := by
  have hkept : (unexpired w.map w.now).rows.Sublist w.map.rows := List.filter_sublist
  obtain ⟨hnone, hrows⟩ | ⟨oldest, rest, hrows, hlength, hprune, hevicted⟩ := evictions_cases h.size
  · rw [hnone, hrows]
    exact ⟨h.queued.sublist hkept, h.lawful⟩
  · have hqueued : Queued w.now w.log (oldest :: rest) := hrows ▸ h.queued.sublist hkept
    have hnodup : ((oldest :: rest).map Challenge.challenge).Nodup := hrows ▸ (unexpired w.map w.now).nodup
    obtain ⟨⟨time, newer, hlive, hbehind, hexpires, -⟩, hqueue⟩ := hqueued
    have hunexpired : w.now ≤ oldest.expires := by
      have hmem : oldest ∈ (unexpired w.map w.now).rows := hrows ▸ List.mem_cons_self
      simpa using (List.mem_filter.mp hmem).2
    rw [hevicted, hprune]
    refine ⟨hqueue.cons le_rfl fun c hc => ?_, ⟨?_, h.lawful⟩⟩
    · refine decide_eq_false fun hsame => (List.nodup_cons.mp hnodup).1 ?_
      rw [hsame]
      exact List.mem_map_of_mem hc
    · exact ⟨oldest.purpose, time, newer, hlive, hexpires ▸ hunexpired, hlength ▸ hbehind⟩

theorem countP_evictions (w : World) (c : String) :
    (w.evictions ++ w.log).countP (·.accepts c) = w.log.countP (·.accepts c) := by
  rw [List.countP_append, Nat.add_eq_right, List.countP_eq_zero]
  intro event hevent
  obtain ⟨d, -, rfl⟩ := List.mem_map.mp (List.mem_reverse.mp hevent)
  exact Bool.false_ne_true

theorem Sound.issue (h : w.Sound) (challenge : String) (purpose : Purpose) (ms : Nat)
    (hstep : w.step (.issue challenge purpose ms) = some w') : w'.Sound := by
  simp only [World.step] at hstep
  split_ifs at hstep with hfresh
  cases hstep
  obtain ⟨hqueued, hlawful⟩ := h.pruned
  have hsub : (prune w.map w.now).rows.Sublist w.map.rows := (evict_suffix _).sublist.trans List.filter_sublist
  have hnew : (prune w.map w.now).find? challenge = none := by
    refine Table.find?_eq_none_iff.mpr fun c hc hsame => hfresh ?_
    obtain ⟨time, newer, hlive, -⟩ := h.queued.mem (hsub.subset hc)
    exact hsame ▸ hlive.issues
  have hrows : (issue w.map challenge purpose w.now (w.now + ms)).rows =
      (prune w.map w.now).rows ++ [⟨challenge, purpose, w.now + ms + CHALLENGE_TTL_MS⟩] :=
    Table.rows_set_of_find?_eq_none hnew
  have hlater : w.now ≤ w.now + ms := by omega
  refine ⟨?_, ?_, ⟨trivial, hlawful⟩, fun c => ?_⟩
  · rw [hrows, List.length_append]
    exact length_evict _
  · rw [hrows]
    exact hqueued.issued challenge purpose hlater
  · obtain ⟨hone, hleft⟩ := h.once c
    have hcount : (.issued challenge purpose (w.now + ms) :: (w.evictions ++ w.log)).countP (·.accepts c) =
        w.log.countP (·.accepts c) := by
      rw [List.countP_cons, countP_evictions]
      rfl
    rw [hcount]
    refine ⟨hone, fun hpos => ⟨fun e he => ?_, ?_⟩⟩
    · rw [hrows] at he
      rcases List.mem_append.mp he with he | he
      · exact (hleft hpos).1 e (hsub.subset he)
      · rw [List.mem_singleton.mp he]
        rintro rfl
        exact hfresh (hleft hpos).2
    · rw [List.any_cons, List.any_append, (hleft hpos).2, Bool.or_true, Bool.or_true]

theorem Sound.step (h : w.Sound) {action : Action} (hstep : w.step action = some w') : w'.Sound := by
  cases action with
  | tick ms =>
    cases hstep
    exact ⟨h.size, h.queued.mono (by dsimp only; omega), h.lawful, h.once⟩
  | issue challenge purpose ms => exact h.issue challenge purpose ms hstep
  | consume challenge purpose => exact h.consume challenge purpose hstep

end World

end Challenges

end Sightr
