import Sightr.Lib.Runs
import Mathlib.Data.List.Range
import Mathlib.Algebra.Order.Ring.Int
import Mathlib.Order.Basic

/-!
# The audit trail's file

`fileAuditAppender` of `bridge/audit.ts`: every call chains its write behind the writes before it, whether they went
well or not. The size of the live file is counted in memory, and a file at the cap is rotated before the line lands.
-/

namespace Sightr

namespace Audit

inductive WriteStage
  | waiting
  | sizing
  | rotating
  | appending
  | settled (ok : Bool)
  deriving DecidableEq

structure AuditWrite where
  length : Nat
  stage : WriteStage
  deriving DecidableEq

structure Appender where
  maxBytes : Nat
  /-- The counted size of the live file; none when it is in doubt. -/
  bytes : Option Nat
  file : Nat
  writes : List AuditWrite
  /-- The calls whose append was attempted, and how each ended. -/
  attempts : List (Nat × Bool)

namespace Appender

def start (maxBytes file : Nat) : Appender := ⟨maxBytes, none, file, [], []⟩

inductive Action
  | call (length : Nat)
  | begin (i : Nat)
  | sized (i : Nat) (size : Option Nat)
  | rotated (i : Nat) (ok : Bool)
  /-- `append` is done, or fails with a part of the line in the file. -/
  | appended (i : Nat) (left : Option Nat)

variable (a : Appender) (i : Nat)

def setStage (stage : WriteStage) : Appender :=
  { a with writes := a.writes.modify i fun write => { write with stage } }

/-- The write goes on with a file that is at the cap, or not. -/
def goOn : Appender := a.setStage i (if a.bytes.any (a.maxBytes ≤ ·) then .rotating else .appending)

def stageOf : Option WriteStage := a.writes[i]?.map AuditWrite.stage

/-- The write before the call's is over, well or not. -/
def mayBegin : Bool :=
  a.stageOf i = some .waiting &&
    match i with
    | 0 => true
    | i + 1 => (a.stageOf i).any fun
      | .settled _ => true
      | _ => false

def step : Action → Option Appender
  | .call length => some { a with writes := a.writes ++ [⟨length, .waiting⟩] }
  | .begin i =>
    if a.mayBegin i then some (if a.bytes.isNone then a.setStage i .sizing else a.goOn i) else none
  | .sized i size =>
    if a.stageOf i = some .sizing then some ({ a with bytes := some (size.getD 0) }.goOn i) else none
  | .rotated i ok =>
    if a.stageOf i = some .rotating then
      let a := if ok then { a with bytes := some 0, file := 0 } else { a with bytes := none }
      some (a.setStage i .appending)
    else none
  | .appended i left =>
    match a.writes[i]? with
    | some ⟨length, .appending⟩ =>
      match left with
      | none =>
        some ({ a with
          bytes := a.bytes.map (· + length), file := a.file + length, attempts := a.attempts ++ [(i,
      true)] }.setStage i (.settled true))
      | some left =>
        if left ≤ length then
          some ({ a with file := a.file + left, attempts := a.attempts ++ [(i, false)] }.setStage i (.settled false))
        else none
    | _ => none

/-- The calls whose write is over are those that were attempted, in call order; each got the result of its own
attempt; and at most one write is under way, the next one. -/
structure Orderly : Prop where
  order : a.attempts.map Prod.fst = List.range a.attempts.length
  settled : ∀ i ok, a.stageOf i = some (.settled ok) ↔ a.attempts[i]? = some (i, ok)
  waiting : ∀ i, a.attempts.length < i → i < a.writes.length → a.stageOf i = some .waiting

/-- Sizes are right, rotations succeed, and a failed append leaves nothing of its line. -/
def steady : Action → Bool
  | .sized _ size => size = some a.file
  | .rotated _ ok => ok
  | .appended _ left => left.all (· = 0)
  | _ => true

def rank : WriteStage → Nat
  | .waiting => 4
  | .sizing => 3
  | .rotating => 2
  | .appending => 1
  | .settled _ => 0

def remaining : Nat := (a.writes.map fun write => rank write.stage).sum

def Action.isCall : Action → Bool
  | .call _ => true
  | _ => false

/-- While a call is not attempted an answer can come, and every answer brings the end of the writes nearer. -/
def Advances : Prop :=
  (a.attempts.length < a.writes.length → ∃ action b, action.isCall = false ∧ a.step action = some b) ∧
    ∀ action b, action.isCall = false → a.step action = some b → b.remaining < a.remaining

/-! ### Stages -/

variable {a b : Appender} {i j : Nat} {stage : WriteStage} {ok : Bool}

theorem stageOf_setStage : (a.setStage i stage).stageOf j = if i = j then (a.stageOf j).map fun _ => stage else
    a.stageOf j := by
  unfold stageOf setStage
  rw [List.getElem?_modify]
  split_ifs
  · cases a.writes[j]? <;> rfl
  · cases a.writes[j]? <;> rfl

theorem stageOf_call (length : Nat) : ({ a with writes := a.writes ++ [⟨length, .waiting⟩] } : Appender).stageOf j =
      if j = a.writes.length then some .waiting else a.stageOf j := by
  unfold stageOf
  split_ifs with hlast
  · simp [hlast]
  · by_cases hlt : j < a.writes.length
    · rw [List.getElem?_append_left hlt]
    · rw [List.getElem?_eq_none (by simp; omega), List.getElem?_eq_none (by omega)]

theorem lt_of_stageOf (h : a.stageOf i = some stage) : i < a.writes.length := by
  obtain ⟨write, hwrite, -⟩ := Option.map_eq_some_iff.mp h
  exact (List.getElem?_eq_some_iff.mp hwrite).1

/-! ### Order -/

namespace Orderly

theorem start (maxBytes file : Nat) : (start maxBytes file).Orderly where
  order := rfl
  settled i ok := by simp [stageOf, Appender.start]
  waiting i _ h := by simp [Appender.start] at h

section

variable (h : a.Orderly)
include h

theorem settled_of_lt (hi : i < a.attempts.length) : ∃ ok, a.stageOf i = some (.settled ok) := by
  obtain ⟨⟨j, ok⟩, hattempt⟩ : ∃ attempt, a.attempts[i]? = some attempt := ⟨_, List.getElem?_eq_getElem hi⟩
  have hj : j = i := by
    have hids := congrArg (·[i]?) h.order
    simpa [List.getElem?_map, hattempt, List.getElem?_range hi] using hids
  exact ⟨ok, (h.settled i ok).mpr (hj ▸ hattempt)⟩

theorem eq_length (hstage : a.stageOf i = some stage) (hbegun : stage ≠ .waiting)
    (hopen : ∀ ok, stage ≠ .settled ok) : i = a.attempts.length := by
  rcases lt_trichotomy i a.attempts.length with hlt | heq | hgt
  · obtain ⟨ok, hsettled⟩ := h.settled_of_lt hlt
    exact absurd (Option.some.inj (hstage.symm.trans hsettled)) (hopen ok)
  · exact heq
  · exact absurd (Option.some.inj (hstage.symm.trans (h.waiting i hgt (lt_of_stageOf hstage)))) hbegun

theorem eq_length_of_mayBegin (hbegin : a.mayBegin i = true) : i = a.attempts.length := by
  unfold mayBegin at hbegin
  rw [Bool.and_eq_true, decide_eq_true_eq] at hbegin
  obtain ⟨hwaiting, hbefore⟩ := hbegin
  rcases lt_trichotomy i a.attempts.length with hlt | heq | hgt
  · obtain ⟨ok, hsettled⟩ := h.settled_of_lt hlt
    cases hwaiting.symm.trans hsettled
  · exact heq
  · cases i with
    | zero => cases hgt
    | succ k =>
      obtain ⟨stage, hstage, hover⟩ := (Option.any_eq_true _ _).mp hbefore
      cases stage with
      | settled ok =>
        have hk := (List.getElem?_eq_some_iff.mp ((h.settled k ok).mp hstage)).1
        omega
      | _ => cases hover

theorem setStage (hopen : ∀ ok, stage ≠ .settled ok) : (a.setStage a.attempts.length stage).Orderly := by
  refine ⟨h.order, fun j ok => ?_, fun j hlt hj => ?_⟩
  · rw [stageOf_setStage]
    split_ifs with hj
    · have hnone : a.attempts[j]? = none := List.getElem?_eq_none hj.le
      change _ ↔ a.attempts[j]? = _
      rw [hnone]
      refine iff_of_false (fun hstage => ?_) (by simp)
      obtain ⟨-, -, hsame⟩ := Option.map_eq_some_iff.mp hstage
      exact hopen ok hsame
    · exact h.settled j ok
  · change a.attempts.length < j at hlt
    rw [stageOf_setStage, if_neg (by omega)]
    exact h.waiting j hlt (by simpa [Appender.setStage] using hj)

theorem attempt (hstage : a.stageOf a.attempts.length = some stage) (bytes : Option Nat) (file : Nat) (ok : Bool) :
    (({ a with bytes, file, attempts := a.attempts ++ [(a.attempts.length, ok)] } : Appender).setStage
      a.attempts.length (.settled ok)).Orderly := by
  have hstages (j : Nat) : (({ a with bytes, file, attempts := a.attempts ++ [(a.attempts.length, ok)] } :
      Appender).setStage a.attempts.length (.settled ok)).stageOf j =
        if a.attempts.length = j then some (.settled ok) else a.stageOf j := by
    rw [stageOf_setStage]
    split_ifs with hj
    · subst hj
      change (a.stageOf a.attempts.length).map _ = _
      rw [hstage]
      rfl
    · rfl
  refine ⟨?_, fun j result => ?_, fun j hlt hj => ?_⟩
  · change (a.attempts ++ [_]).map Prod.fst = List.range (a.attempts ++ [_]).length
    rw [List.map_append, h.order, List.length_append, List.length_singleton, List.range_succ]
    rfl
  · rw [hstages]
    change _ ↔ (a.attempts ++ [_])[j]? = _
    split_ifs with hj
    · subst hj
      simp
    · rw [h.settled]
      by_cases hlt : j < a.attempts.length
      · rw [List.getElem?_append_left hlt]
      · rw [List.getElem?_eq_none (by omega), List.getElem?_eq_none (by simp; omega)]
  · change (a.attempts ++ [_]).length < j at hlt
    rw [List.length_append, List.length_singleton] at hlt
    rw [hstages, if_neg (by omega)]
    exact h.waiting j (by omega) (by simpa [Appender.setStage] using hj)

theorem step {action : Action} (hstep : a.step action = some b) : b.Orderly := by
  have hcongr (bytes : Option Nat) (file : Nat) : ({ a with bytes, file } : Appender).Orderly :=
    ⟨h.order, h.settled, h.waiting⟩
  cases action with
  | call length =>
    cases hstep
    refine ⟨h.order, fun j ok => ?_, fun j hlt hj => ?_⟩
    · rw [stageOf_call]
      split_ifs with hlast
      · refine iff_of_false (by simp) fun hattempt => ?_
        have hold := lt_of_stageOf ((h.settled j ok).mpr hattempt)
        omega
      · exact h.settled j ok
    · rw [stageOf_call]
      split_ifs with hlast
      · rfl
      · refine h.waiting j hlt ?_
        rw [List.length_append, List.length_singleton] at hj
        omega
  | begin i =>
    simp only [Appender.step] at hstep
    split_ifs at hstep with hbegin hnone <;> cases hstep
    · rw [h.eq_length_of_mayBegin hbegin]
      exact h.setStage (by simp)
    · rw [h.eq_length_of_mayBegin hbegin]
      unfold goOn
      split_ifs <;> exact h.setStage (by simp)
  | sized i size =>
    simp only [Appender.step] at hstep
    split_ifs at hstep with hstage
    cases hstep
    rw [h.eq_length hstage (by simp) (by simp)]
    unfold goOn
    split_ifs <;> exact (hcongr _ a.file).setStage (by simp)
  | rotated i ok =>
    simp only [Appender.step] at hstep
    split_ifs at hstep with hstage hok <;> obtain rfl := Option.some.inj hstep <;>
      rw [h.eq_length hstage (by simp) (by simp)]
    · exact (hcongr _ _).setStage (by simp)
    · exact (hcongr _ a.file).setStage (by simp)
  | appended i left =>
    simp only [Appender.step] at hstep
    split at hstep
    · next length hwrite =>
      have hstage : a.stageOf i = some .appending := by rw [stageOf, hwrite]; rfl
      obtain rfl := h.eq_length hstage (by simp) (by simp)
      cases left with
      | none =>
        cases hstep
        exact h.attempt hstage _ _ true
      | some left =>
        dsimp only at hstep
        split_ifs at hstep
        cases hstep
        exact h.attempt hstage _ _ false
    · cases hstep

end

end Orderly

/-! ### No line is lost -/

variable {old : WriteStage}

theorem sum_rank_modify {l : List AuditWrite} (hstage : l[i]?.map AuditWrite.stage = some old)
    (hlt : rank stage < rank old) :
    ((l.modify i fun write => { write with stage }).map fun write => rank write.stage).sum <
      (l.map fun write => rank write.stage).sum := by
  induction l generalizing i with
  | nil => cases hstage
  | cons write rest ih =>
    cases i with
    | zero =>
      cases hstage
      simpa using hlt
    | succ i => simpa using ih hstage

theorem remaining_setStage (hstage : a.stageOf i = some old) (hlt : rank stage < rank old) :
    (a.setStage i stage).remaining < a.remaining := sum_rank_modify hstage hlt

theorem remaining_goOn (hstage : a.stageOf i = some old) (hlt : 2 < rank old) :
    (a.goOn i).remaining < a.remaining := by
  unfold goOn
  split_ifs
  · exact remaining_setStage hstage hlt
  · exact remaining_setStage hstage ((show rank .appending < 2 by decide).trans hlt)

theorem remaining_step {action : Action} (hcall : action.isCall = false) (hstep : a.step action = some b) :
    b.remaining < a.remaining := by
  cases action with
  | call length => cases hcall
  | begin i =>
    simp only [step] at hstep
    split_ifs at hstep with hbegin hnone <;> obtain rfl := Option.some.inj hstep <;>
      unfold mayBegin at hbegin <;> rw [Bool.and_eq_true, decide_eq_true_eq] at hbegin
    · exact remaining_setStage hbegin.1 (by decide)
    · exact remaining_goOn hbegin.1 (by decide)
  | sized i size =>
    simp only [step] at hstep
    split_ifs at hstep with hstage
    cases hstep
    exact remaining_goOn (a := { a with bytes := some (size.getD 0) }) hstage (by decide)
  | rotated i ok =>
    simp only [step] at hstep
    split_ifs at hstep with hstage hok <;> cases hstep
    · exact remaining_setStage (a := { a with bytes := some 0, file := 0 }) hstage (by decide)
    · exact remaining_setStage (a := { a with bytes := none }) hstage (by decide)
  | appended i left =>
    simp only [step] at hstep
    split at hstep
    · next length hwrite =>
      have hstage : a.writes[i]?.map AuditWrite.stage = some .appending := by rw [hwrite]; rfl
      cases left with
      | none =>
        cases hstep
        exact sum_rank_modify hstage (by decide)
      | some left =>
        dsimp only at hstep
        split_ifs at hstep
        cases hstep
        exact sum_rank_modify hstage (by decide)
    · cases hstep

theorem step_appended {length : Nat} (hwrite : a.writes[i]? = some ⟨length, .appending⟩) :
    a.step (.appended i none) = some ({ a with
      bytes := a.bytes.map (· + length), file := a.file + length, attempts := a.attempts ++ [(i, true)] }.setStage i
        (.settled true)) := by
  simp only [step]
  rw [hwrite]

theorem Orderly.advances (h : a.Orderly) : a.Advances := by
  refine ⟨fun hlt => ?_, fun action b => remaining_step⟩
  obtain ⟨⟨length, stage⟩, hwrite⟩ : ∃ write, a.writes[a.attempts.length]? = some write :=
    ⟨_, List.getElem?_eq_getElem hlt⟩
  have hstage : a.stageOf a.attempts.length = some stage := by rw [stageOf, hwrite]; rfl
  cases stage with
  | waiting =>
    have hbegin : a.mayBegin a.attempts.length = true := by
      unfold mayBegin
      rw [Bool.and_eq_true, decide_eq_true_eq]
      refine ⟨hstage, ?_⟩
      split
      · rfl
      · next k hk =>
        obtain ⟨ok, hsettled⟩ := h.settled_of_lt (show k < a.attempts.length by omega)
        rw [hsettled]
        rfl
    exact ⟨.begin _, _, rfl, if_pos hbegin⟩
  | sizing => exact ⟨.sized _ none, _, rfl, if_pos hstage⟩
  | rotating => exact ⟨.rotated _ true, _, rfl, if_pos hstage⟩
  | appending => exact ⟨.appended _ none, _, rfl, step_appended hwrite⟩
  | settled ok =>
    have hattempt := (h.settled _ ok).mp hstage
    rw [List.getElem?_eq_none le_rfl] at hattempt
    cases hattempt

/-! ### The cap -/

/-- The counted size is the file's, a line lands below the cap only, and no file is more than a line over it. -/
structure Capped (maxBytes initial : Nat) (a : Appender) : Prop where
  cap : a.maxBytes = maxBytes
  counted : ∀ n ∈ a.bytes, n = a.file
  room : ∀ i, a.stageOf i = some .appending → ∃ n ∈ a.bytes, n ≤ maxBytes
  bound : ∀ longest, (∀ write ∈ a.writes, write.length ≤ longest) → a.file ≤ max initial (maxBytes + longest)

namespace Capped

variable {maxBytes initial : Nat}

theorem start (maxBytes file : Nat) : Capped maxBytes file (start maxBytes file) where
  cap := rfl
  counted n hn := by cases hn
  room i h := by simp [stageOf, Appender.start] at h
  bound longest _ := le_max_left _ _

private theorem others (h : a.Orderly) {old : WriteStage} (hold : a.stageOf i = some old) (hbegun : old ≠ .waiting)
    (hopen : ∀ ok, old ≠ .settled ok) (hij : i ≠ j) : a.stageOf j ≠ some .appending := by
  intro hj
  exact hij ((h.eq_length hold hbegun hopen).trans (h.eq_length hj (by simp) (by simp)).symm)

theorem exists_mem_setStage {write : AuditWrite} (hwrite : write ∈ a.writes) :
    ∃ new ∈ (a.setStage i stage).writes, new.length = write.length := by
  obtain ⟨k, hk⟩ := List.mem_iff_getElem?.mp hwrite
  have hnew : (a.setStage i stage).writes[k]? = some (if i = k then { write with stage } else write) := by
    unfold Appender.setStage
    rw [List.getElem?_modify, hk]
    rfl
  refine ⟨_, List.mem_of_getElem? hnew, ?_⟩
  split_ifs <;> rfl

private theorem setStage (hcap : a.maxBytes = maxBytes) (hcounted : ∀ n ∈ a.bytes, n = a.file)
    (hroom : stage = .appending → ∃ n ∈ a.bytes, n ≤ maxBytes)
    (hothers : ∀ j, i ≠ j → a.stageOf j ≠ some .appending)
    (hbound : ∀ longest, (∀ write ∈ a.writes, write.length ≤ longest) → a.file ≤ max initial (maxBytes + longest)) :
    Capped maxBytes initial (a.setStage i stage) where
  cap := hcap
  counted := hcounted
  room j hj := by
    rw [stageOf_setStage] at hj
    split_ifs at hj with hij
    · obtain ⟨-, -, hstage⟩ := Option.map_eq_some_iff.mp hj
      exact hroom hstage
    · exact absurd hj (hothers j hij)
  bound longest hlength := hbound longest fun write hwrite => by
    obtain ⟨new, hnew, hsame⟩ := exists_mem_setStage hwrite
    exact hsame ▸ hlength new hnew

private theorem goOn (hcap : a.maxBytes = maxBytes) (hcounted : ∀ n ∈ a.bytes, n = a.file) {n : Nat}
    (hn : a.bytes = some n) (hothers : ∀ j, i ≠ j → a.stageOf j ≠ some .appending)
    (hbound : ∀ longest, (∀ write ∈ a.writes, write.length ≤ longest) → a.file ≤ max initial (maxBytes + longest)) :
    Capped maxBytes initial (a.goOn i) := by
  unfold Appender.goOn
  split_ifs with hfull
  · exact setStage hcap hcounted nofun hothers hbound
  · refine setStage hcap hcounted (fun _ => ⟨n, hn, ?_⟩) hothers hbound
    rw [hn, Option.any_some, decide_eq_true_eq, hcap] at hfull
    omega

theorem step (h : Capped maxBytes initial a) (horder : a.Orderly) {action : Action} (hsteady : a.steady action = true)
    (hstep : a.step action = some b) : Capped maxBytes initial b := by
  cases action with
  | call length =>
    cases hstep
    refine ⟨h.cap, h.counted, fun j hj => ?_, fun longest hlength => ?_⟩
    · rw [stageOf_call] at hj
      split_ifs at hj with hlast
      · cases hj
      · exact h.room j hj
    · exact h.bound longest fun write hwrite => hlength write (List.mem_append_left _ hwrite)
  | begin i =>
    simp only [Appender.step] at hstep
    split_ifs at hstep with hbegin hnone <;> cases hstep
    all_goals
      have hothers (j : Nat) (hij : i ≠ j) : a.stageOf j ≠ some .appending := fun hj =>
        hij ((horder.eq_length_of_mayBegin hbegin).trans (horder.eq_length hj (by simp) (by simp)).symm)
    · exact setStage h.cap h.counted nofun hothers h.bound
    · obtain ⟨n, hn⟩ := Option.ne_none_iff_exists'.mp (mt Option.isNone_iff_eq_none.mpr hnone)
      exact goOn h.cap h.counted hn hothers h.bound
  | sized i size =>
    simp only [Appender.step] at hstep
    split_ifs at hstep with hstage
    cases hstep
    obtain rfl : size = some a.file := by simpa [steady] using hsteady
    have hothers (j : Nat) (hij : i ≠ j) := others horder hstage nofun nofun hij
    exact goOn (a := { a with bytes := some a.file }) h.cap (fun n hn =>
      (Option.some.inj hn).symm) rfl hothers h.bound
  | rotated i ok =>
    simp only [Appender.step] at hstep
    split_ifs at hstep with hstage hok <;> cases hstep
    · have hothers (j : Nat) (hij : i ≠ j) := others horder hstage nofun nofun hij
      exact setStage (a := { a with bytes := some 0, file := 0 }) h.cap (fun n hn => (Option.some.inj hn).symm)
        (fun _ => ⟨0, rfl, Nat.zero_le _⟩) hothers fun _ _ => Nat.zero_le _
    · exact absurd hsteady hok
  | appended i left =>
    simp only [Appender.step] at hstep
    split at hstep
    · next length hwrite =>
      have hstage : a.stageOf i = some .appending := by rw [stageOf, hwrite]; rfl
      obtain ⟨n, hn, hroom⟩ := h.room i hstage
      obtain rfl := h.counted n hn
      have hothers (j : Nat) (hij : i ≠ j) := others horder hstage nofun nofun hij
      cases left with
      | none =>
        cases hstep
        refine setStage (a := { a with
          bytes := a.bytes.map (· + length), file := a.file + length, attempts := a.attempts ++ [(i, true)] })
          h.cap (fun m hm => ?_) nofun hothers fun longest hlength => ?_
        · obtain ⟨old, hold, rfl⟩ := Option.map_eq_some_iff.mp hm
          rw [h.counted old hold]
        · have hlong := hlength _ (List.mem_of_getElem? hwrite)
          dsimp only at hlong ⊢
          omega
      | some left =>
        dsimp only at hstep
        split_ifs at hstep
        cases hstep
        obtain rfl : left = 0 := by simpa [steady] using hsteady
        exact setStage (a := { a with file := a.file + 0, attempts := a.attempts ++ [(i,
      false)] }) h.cap h.counted nofun hothers h.bound
    · cases hstep

end Capped

/-! ### Every run -/

/-- Writes are attempted one at a time and in call order, one attempt a call, whatever the results; and while
sizes are right, rotations succeed and a failed append leaves nothing, the live file is at most one line over
the cap. -/
theorem orderly_and_capped (maxBytes file : Nat) :
    (∀ a, Runs.Run Appender.step (fun _ _ => True) (start maxBytes file) a → a.Orderly ∧ a.Advances) ∧
      ∀ a, Runs.Run Appender.step (fun a action => a.steady action = true) (start maxBytes file) a →
        ∀ longest, (∀ write ∈ a.writes, write.length ≤ longest) → a.file ≤ max file (maxBytes + longest) := by
  refine ⟨fun a hrun => ?_, fun a hrun => ?_⟩
  · have horder : a.Orderly := hrun.invariant (fun _ _ _ h _ hstep => h.step hstep) (Orderly.start maxBytes file)
    exact ⟨horder, horder.advances⟩
  · have hkept : a.Orderly ∧ Capped maxBytes file a :=
      hrun.invariant (P := fun a => a.Orderly ∧ Capped maxBytes file a)
        (fun _ _ _ h hsteady hstep => ⟨h.1.step hstep, h.2.step h.1 hsteady hstep⟩)
        ⟨Orderly.start maxBytes file, Capped.start maxBytes file⟩
    exact hkept.2.bound

/-- A file over the cap is rotated away, and a line whose append fails is followed by the next one. -/
theorem orderly_and_capped_rotated : ∃ a : Appender, a.attempts = [(0, false), (1, true)] ∧
    a.Orderly ∧ a.Advances ∧ a.file ≤ max 12 (10 + 9) := by
  obtain ⟨a, hrun, ha⟩ := Runs.exists_run_of_exec
    (show (Runs.exec Appender.step (fun a action => a.steady action = true) (start 10 12)
      [.call 9, .call 4, .begin 0, .sized 0 (some 12), .rotated 0 true, .appended 0 (some 0),
        .begin 1, .appended 1 none]).any
      (fun a => a.attempts = [(0, false), (1, true)] && a.writes.all (·.length ≤ 9)) = true by decide +kernel)
  rw [Bool.and_eq_true, List.all_eq_true, decide_eq_true_eq] at ha
  obtain ⟨hlawful, hcap⟩ := orderly_and_capped 10 12
  exact ⟨a, ha.1, (hlawful a (hrun.imp fun _ _ _ => trivial)).1, (hlawful a (hrun.imp fun _ _ _ => trivial)).2,
    hcap a hrun 9 fun write hwrite => of_decide_eq_true (ha.2 write hwrite)⟩

/-- Sizes are right and rotations succeed; what a failed append leaves is not asked for. -/
private def honest (a : Appender) : Action → Bool
  | .sized _ size => size = some a.file
  | .rotated _ ok => ok
  | _ => true

/-- With parts of lines left behind the live file grows past one line over the cap: appends fail and leave
most of their line, which the counted size does not know. -/
theorem uncapped_by_parts : ¬ ∀ maxBytes a longest,
    Runs.Run Appender.step (fun a action => honest a action = true) (start maxBytes 0) a →
      (∀ write ∈ a.writes, write.length ≤ longest) → a.file ≤ maxBytes + longest := by
  intro h
  obtain ⟨a, hrun, ha⟩ := Runs.exists_run_of_exec
    (show (Runs.exec Appender.step (fun a action => honest a action = true) (start 10 0)
      [.call 9, .begin 0, .sized 0 (some 0), .appended 0 none, .call 9, .begin 1, .appended 1 (some 8),
        .call 9, .begin 2, .appended 2 none]).any
      (fun a => a.writes.all (·.length ≤ 9) && 19 < a.file) = true by decide +kernel)
  rw [Bool.and_eq_true, List.all_eq_true, decide_eq_true_eq] at ha
  have hfile := h 10 a 9 hrun fun write hwrite => of_decide_eq_true (ha.1 write hwrite)
  omega

end Appender

end Audit

end Sightr
