import Mathlib.Data.List.Nodup
import Mathlib.Logic.Relation

/-!
# Schedulers with slots

Jobs with keys wait for a slot: so many jobs hold a slot at once, and so many of one key. Waiting jobs of one key are
served in the order of the calls; a job may be refused when it is called, and withdrawn while it waits. A job's task
ends, its slot is freed and its call is answered in separate steps, the last two in any order.

## Main definitions

* `Slots`: the calls so far, what waits, what was started, who holds a slot, how tasks ended and calls were answered.
* `Slots.Step`: the steps of a scheduler with `total` slots, `perKey` of one key.
* `Slots.pump`: start every waiting job that may start.
* `Slots.Sound`, `Slots.Served`: the invariant, and that no job that may start is left waiting.

## Main results

* `Slots.Sound.step`, `Slots.Sound.steps`: every step keeps the invariant.
* `Slots.steps_pump`, `Slots.served_pump`: a pump is a run of steps, after which every job is served that may be.
* `Slots.Orderly.settled`, `Slots.Sound.idle`: when no task runs all calls are answered, and the other way round.
-/

structure Job (ι κ : Type*) where
  id : ι
  key : κ
  deriving DecidableEq

/-- The state of a scheduler, with all that happened so far. -/
structure Slots (ι κ ρ ε : Type*) where
  /-- The calls, in order. -/
  called : List (Job ι κ)
  /-- The jobs that wait, in the order of the queue. -/
  waiting : List (Job ι κ)
  /-- The jobs whose tasks were started, in order. -/
  started : List (Job ι κ)
  /-- The jobs that hold a slot. -/
  active : List (Job ι κ)
  /-- How the tasks that ended did so. -/
  ended : List (ι × ρ)
  /-- How the calls were answered: with the task's result, or with a refusal. -/
  settled : List (ι × Except ε ρ)

namespace Slots

variable {ι κ ρ ε : Type*}

def empty : Slots ι κ ρ ε := ⟨[], [], [], [], [], []⟩

def ids (jobs : List (Job ι κ)) : List ι := jobs.map Job.id

@[simp] theorem ids_append (a b : List (Job ι κ)) : ids (a ++ b) = ids a ++ ids b := List.map_append

@[simp] theorem ids_cons (j : Job ι κ) (a : List (Job ι κ)) : ids (j :: a) = j.id :: ids a := rfl

variable [DecidableEq κ]

variable (k : κ)

def ofKey (jobs : List (Job ι κ)) : List (Job ι κ) := jobs.filter (·.key = k)

@[simp] theorem ofKey_append (a b : List (Job ι κ)) : ofKey k (a ++ b) = ofKey k a ++ ofKey k b :=
  List.filter_append ..

@[simp] theorem ofKey_nil : ofKey k ([] : List (Job ι κ)) = [] := rfl

theorem ofKey_cons (j : Job ι κ) (a : List (Job ι κ)) :
    ofKey k (j :: a) = if j.key = k then j :: ofKey k a else ofKey k a := by
  by_cases h : j.key = k <;> simp [ofKey, h]

/-- Is there no job of the key among them? -/
theorem ofKey_eq_nil {k : κ} {jobs : List (Job ι κ)} (h : ∀ v ∈ jobs, v.key ≠ k) : ofKey k jobs = [] :=
  List.filter_eq_nil_iff.mpr fun v hv => by simpa using h v hv

/-- The job's task starts; it leaves the queue, which becomes `queue`. -/
def start (s : Slots ι κ ρ ε) (j : Job ι κ) (queue : List (Job ι κ)) : Slots ι κ ρ ε :=
  { s with waiting := queue, started := s.started ++ [j], active := s.active ++ [j] }

/-- May the job start, with the given jobs waiting before it? -/
def MayStart (total perKey : Nat) (s : Slots ι κ ρ ε) (before : List (Job ι κ)) (j : Job ι κ) : Prop :=
  s.active.length < total ∧ (ofKey j.key s.active).length < perKey ∧ ∀ v ∈ before, v.key ≠ j.key

/-! ### The invariant -/

structure Sound (total perKey : Nat) (s : Slots ι κ ρ ε) : Prop where
  nodup : (ids s.called).Nodup
  /-- Per key, what was started and then what waits come in the order of the calls. -/
  order : ∀ k, (ofKey k s.started ++ ofKey k s.waiting).Sublist (ofKey k s.called)
  startedOnce : (ids s.started).Nodup
  active : s.active.Sublist s.started
  total : s.active.length ≤ total
  perKey : ∀ k, (ofKey k s.active).length ≤ perKey
  ended : ∀ e ∈ s.ended, e.1 ∈ ids s.started
  endedOnce : (s.ended.map Prod.fst).Nodup
  settledOnce : (s.settled.map Prod.fst).Nodup
  answered : ∀ id r, (id, .ok r) ∈ s.settled → (id, r) ∈ s.ended
  refused : ∀ id e, (id, .error e) ∈ s.settled → id ∈ ids s.called ∧ id ∉ ids s.started ∧ id ∉ ids s.waiting
  accounted : ∀ j ∈ s.called, j ∈ s.waiting ∨ j ∈ s.started ∨ ∃ e, (j.id, .error e) ∈ s.settled
  running : ∀ j ∈ s.started, j ∈ s.active ∨ j.id ∈ s.ended.map Prod.fst

variable {total perKey : Nat} {s t : Slots ι κ ρ ε} {j : Job ι κ}

theorem sound_empty : Sound total perKey (empty : Slots ι κ ρ ε) where
  nodup := List.nodup_nil
  order _ := List.Sublist.refl _
  startedOnce := List.nodup_nil
  active := List.Sublist.refl _
  total := Nat.zero_le _
  perKey _ := Nat.zero_le _
  ended := by simp [empty]
  endedOnce := List.nodup_nil
  settledOnce := List.nodup_nil
  answered := by simp [empty]
  refused := by simp [empty]
  accounted := by simp [empty]
  running := by simp [empty]

theorem mem_ofKey {k : κ} {jobs : List (Job ι κ)} : j ∈ ofKey k jobs ↔ j ∈ jobs ∧ j.key = k := by
  simp [ofKey]

section

variable (h : Sound total perKey s)
include h

theorem Sound.called_of_started (hj : j ∈ s.started) : j ∈ s.called :=
  (mem_ofKey.mp ((h.order j.key).subset (List.mem_append_left _ (mem_ofKey.mpr ⟨hj, rfl⟩)))).1

theorem Sound.called_of_waiting (hj : j ∈ s.waiting) : j ∈ s.called :=
  (mem_ofKey.mp ((h.order j.key).subset (List.mem_append_right _ (mem_ofKey.mpr ⟨hj, rfl⟩)))).1

theorem Sound.eq_of_id {i : Job ι κ} (hi : i ∈ s.called) (hj : j ∈ s.called)
    (hid : i.id = j.id) : i = j := List.inj_on_of_nodup_map h.nodup hi hj hid

theorem Sound.mem_called_of_started_id {id : ι} (hid : id ∈ ids s.started) : id ∈ ids s.called := by
  obtain ⟨i, hi, rfl⟩ := List.mem_map.mp hid
  exact List.mem_map_of_mem (h.called_of_started hi)

theorem Sound.mem_called_of_waiting_id {id : ι} (hid : id ∈ ids s.waiting) : id ∈ ids s.called := by
  obtain ⟨i, hi, rfl⟩ := List.mem_map.mp hid
  exact List.mem_map_of_mem (h.called_of_waiting hi)

theorem Sound.waiting_not_started (hj : j ∈ s.waiting) : j.id ∉ ids s.started := by
  intro hid
  obtain ⟨i, hi, hsame⟩ := List.mem_map.mp hid
  obtain rfl := h.eq_of_id (h.called_of_started hi) (h.called_of_waiting hj) hsame
  have hnodup : (ofKey i.key s.called).Nodup := (List.Nodup.of_map _ h.nodup).filter _
  exact List.disjoint_of_nodup_append (hnodup.sublist (h.order i.key)) (mem_ofKey.mpr ⟨hi, rfl⟩)
    (mem_ofKey.mpr ⟨hj, rfl⟩)

theorem Sound.activeOnce : (ids s.active).Nodup := h.startedOnce.sublist (h.active.map _)

theorem Sound.waiting_not_settled (hj : j ∈ s.waiting) : j.id ∉ s.settled.map Prod.fst := by
  intro hid
  obtain ⟨⟨id, outcome⟩, hsettled, rfl⟩ := List.mem_map.mp hid
  cases outcome with
  | ok r => exact h.waiting_not_started hj (h.ended _ (h.answered _ r hsettled))
  | error e => exact (h.refused _ e hsettled).2.2 (List.mem_map_of_mem hj)

end

/-! ### Steps -/

def without [DecidableEq ι] (id : ι) (jobs : List (Job ι κ)) : List (Job ι κ) := jobs.filter (·.id ≠ id)

inductive Step [DecidableEq ι] (total perKey : Nat) : Slots ι κ ρ ε → Slots ι κ ρ ε → Prop
  /-- A call is refused. -/
  | refuse {s : Slots ι κ ρ ε} {j : Job ι κ} {e : ε} : j.id ∉ ids s.called →
      Step total perKey s { s with called := s.called ++ [j], settled := s.settled ++ [(j.id, .error e)] }
  /-- A call's job goes to the end of the queue. -/
  | enqueue {s : Slots ι κ ρ ε} {j : Job ι κ} : j.id ∉ ids s.called →
      Step total perKey s { s with called := s.called ++ [j], waiting := s.waiting ++ [j] }
  | start {s : Slots ι κ ρ ε} {j : Job ι κ} {before after : List (Job ι κ)} : s.waiting = before ++ j :: after →
      s.MayStart total perKey before j → Step total perKey s (s.start j (before ++ after))
  /-- A job's task ends. -/
  | finish {s : Slots ι κ ρ ε} {j : Job ι κ} {r : ρ} : j ∈ s.active → j.id ∉ s.ended.map Prod.fst →
      Step total perKey s { s with ended := s.ended ++ [(j.id, r)] }
  /-- The slot of an ended task is freed. -/
  | free {s : Slots ι κ ρ ε} {j : Job ι κ} : j ∈ s.active → j.id ∈ s.ended.map Prod.fst →
      Step total perKey s { s with active := without j.id s.active }
  /-- The call of an ended task is answered. -/
  | settle {s : Slots ι κ ρ ε} {id : ι} {r : ρ} : (id, r) ∈ s.ended → id ∉ s.settled.map Prod.fst →
      Step total perKey s { s with settled := s.settled ++ [(id, .ok r)] }
  /-- A waiting job leaves the queue, its call refused. -/
  | withdraw {s : Slots ι κ ρ ε} {j : Job ι κ} {e : ε} : j ∈ s.waiting →
      Step total perKey s { s with waiting := without j.id s.waiting, settled := s.settled ++ [(j.id, .error e)] }

abbrev Steps [DecidableEq ι] (total perKey : Nat) : Slots ι κ ρ ε → Slots ι κ ρ ε →
      Prop := Relation.ReflTransGen (Step total perKey)

/-! ### Every step keeps the invariant -/

omit [DecidableEq κ] in
theorem without_sublist [DecidableEq ι] (id : ι) (jobs : List (Job ι κ)) :
      (without id jobs).Sublist jobs := List.filter_sublist

theorem ofKey_without_sublist [DecidableEq ι] (k : κ) (id : ι) (jobs : List (Job ι κ)) :
    (ofKey k (without id jobs)).Sublist (ofKey k jobs) := (without_sublist id jobs).filter _

omit [DecidableEq κ] in
theorem without_mid [DecidableEq ι] {a b : List (Job ι κ)} (h : (ids (a ++ j :: b)).Nodup) :
    without j.id (a ++ j :: b) = a ++ b := by
  have hmid : j.id ∉ ids (a ++ b) := by
    rw [ids_append, ids_cons, List.nodup_middle] at h
    simpa using (List.nodup_cons.mp h).1
  have hkeep : ∀ v ∈ a ++ b, v.id ≠ j.id := fun v hv hid => hmid (hid ▸ List.mem_map_of_mem hv)
  unfold without
  rw [List.filter_append, List.filter_cons_of_neg (by simp), ← List.filter_append]
  exact List.filter_eq_self.mpr fun v hv => by simpa using hkeep v hv

theorem nodup_concat {l : List ι} {x : ι} (h : l.Nodup) (hx : x ∉ l) : (l ++ [x]).Nodup :=
  List.nodup_append.mpr ⟨h, List.nodup_singleton x, fun a ha b hb hab =>
    hx (by rw [← List.mem_singleton.mp hb, ← hab]; exact ha)⟩

section

variable (h : Sound total perKey s)
include h

private theorem Sound.refuse {e : ε} (hid : j.id ∉ ids s.called) :
    Sound total perKey { s with called := s.called ++ [j], settled := s.settled ++ [(j.id, .error e)] } := { h with
  nodup := by
    rw [ids_append]
    exact nodup_concat h.nodup hid
  order := fun k => (h.order k).trans (by rw [ofKey_append]; exact List.sublist_append_left ..)
  settledOnce := by
    rw [List.map_append]
    refine nodup_concat h.settledOnce fun hmem => hid ?_
    obtain ⟨⟨id, outcome⟩, hsettled, rfl⟩ := List.mem_map.mp hmem
    cases outcome with
    | ok r => exact h.mem_called_of_started_id (h.ended _ (h.answered _ r hsettled))
    | error e => exact (h.refused _ e hsettled).1
  answered := fun id r hmem => by
    rcases List.mem_append.mp hmem with hmem | hmem
    · exact h.answered id r hmem
    · simp at hmem
  refused := fun id e hmem => by
    rcases List.mem_append.mp hmem with hmem | hmem
    · obtain ⟨hcalled, hrest⟩ := h.refused id e hmem
      exact ⟨by rw [ids_append]; exact List.mem_append_left _ hcalled, hrest⟩
    · obtain ⟨rfl, -⟩ := Prod.mk.inj (List.mem_singleton.mp hmem)
      exact ⟨by simp, fun hstarted => hid (h.mem_called_of_started_id hstarted),
        fun hwaiting => hid (h.mem_called_of_waiting_id hwaiting)⟩
  accounted := fun i hi => by
    rcases List.mem_append.mp hi with hi | hi
    · obtain hw | hs | ⟨e, he⟩ := h.accounted i hi
      · exact .inl hw
      · exact .inr (.inl hs)
      · exact .inr (.inr ⟨e, List.mem_append_left _ he⟩)
    · rw [List.mem_singleton.mp hi]
      exact .inr (.inr ⟨e, List.mem_append_right _ (List.mem_singleton_self _)⟩) }

private theorem Sound.enqueue (hid : j.id ∉ ids s.called) :
    Sound total perKey { s with called := s.called ++ [j], waiting := s.waiting ++ [j] } := { h with
  nodup := by
    rw [ids_append]
    exact nodup_concat h.nodup hid
  order := fun k => by
    rw [ofKey_append, ofKey_append, ← List.append_assoc]
    exact (h.order k).append (List.Sublist.refl _)
  refused := fun id e hmem => by
    obtain ⟨hcalled, hstarted, hwaiting⟩ := h.refused id e hmem
    refine ⟨by rw [ids_append]; exact List.mem_append_left _ hcalled, hstarted, ?_⟩
    rw [ids_append, List.mem_append, not_or]
    refine ⟨hwaiting, fun hmem => hid ?_⟩
    rw [← List.mem_singleton.mp hmem]
    exact hcalled
  accounted := fun i hi => by
    rcases List.mem_append.mp hi with hi | hi
    · obtain hw | hrest := h.accounted i hi
      · exact .inl (List.mem_append_left _ hw)
      · exact .inr hrest
    · exact .inl (List.mem_append_right _ hi) }

private theorem Sound.start {before after : List (Job ι κ)}
    (hwaiting : s.waiting = before ++ j :: after) (hmay : s.MayStart total perKey before j) :
    Sound total perKey (s.start j (before ++ after)) := { h with
  order := fun k => by
    have hk := h.order k
    change (ofKey k (s.started ++ [j]) ++ ofKey k (before ++ after)).Sublist (ofKey k s.called)
    rw [hwaiting] at hk
    simp only [ofKey_append, ofKey_cons, ofKey_nil] at hk ⊢
    split_ifs with hkey
    · rw [if_pos hkey] at hk
      -- No job of the key is passed over.
      have hbefore : ofKey k before = [] := ofKey_eq_nil fun v hv => hkey ▸ hmay.2.2 v hv
      rw [hbefore, List.nil_append] at hk ⊢
      simpa using hk
    · rw [if_neg hkey] at hk
      simpa using hk
  startedOnce := by
    change (ids (s.started ++ [j])).Nodup
    rw [ids_append]
    exact nodup_concat h.startedOnce (h.waiting_not_started (by rw [hwaiting]; simp))
  active := h.active.append (List.Sublist.refl _)
  total := by
    change (s.active ++ [j]).length ≤ total
    rw [List.length_append]
    exact hmay.1
  perKey := fun k => by
    change (ofKey k (s.active ++ [j])).length ≤ perKey
    rw [ofKey_append, ofKey_cons, ofKey_nil]
    split_ifs with hkey
    · rw [List.length_append]
      exact hkey ▸ hmay.2.1
    · rw [List.append_nil]
      exact h.perKey k
  ended := fun e he => by
    change e.1 ∈ ids (s.started ++ [j])
    rw [ids_append]
    exact List.mem_append_left _ (h.ended e he)
  refused := fun id e hmem => by
    obtain ⟨hcalled, hstarted, hnot⟩ := h.refused id e hmem
    rw [hwaiting, ids_append, ids_cons, List.mem_append, List.mem_cons, not_or, not_or] at hnot
    refine ⟨hcalled, ?_, ?_⟩
    · change id ∉ ids (s.started ++ [j])
      rw [ids_append, List.mem_append, not_or]
      exact ⟨hstarted, fun hid => hnot.2.1 (List.mem_singleton.mp hid)⟩
    · change id ∉ ids (before ++ after)
      rw [ids_append, List.mem_append, not_or]
      exact ⟨hnot.1, hnot.2.2⟩
  accounted := fun i hi => by
    obtain hw | hs | he := h.accounted i hi
    · rw [hwaiting] at hw
      rcases List.mem_append.mp hw with hw | hw
      · exact .inl (List.mem_append_left _ hw)
      · rcases List.mem_cons.mp hw with rfl | hw
        · exact .inr (.inl (List.mem_append_right _ (List.mem_singleton_self _)))
        · exact .inl (List.mem_append_right _ hw)
    · exact .inr (.inl (List.mem_append_left _ hs))
    · exact .inr (.inr he)
  running := fun i hi => by
    rcases List.mem_append.mp hi with hi | hi
    · obtain hactive | hended := h.running i hi
      · exact .inl (List.mem_append_left _ hactive)
      · exact .inr hended
    · exact .inl (List.mem_append_right _ hi) }

private theorem Sound.finish {r : ρ} (hj : j ∈ s.active) (hended : j.id ∉ s.ended.map Prod.fst) :
    Sound total perKey { s with ended := s.ended ++ [(j.id, r)] } := { h with
  ended := fun e he => by
    rcases List.mem_append.mp he with he | he
    · exact h.ended e he
    · rw [List.mem_singleton.mp he]
      exact List.mem_map_of_mem (h.active.subset hj)
  endedOnce := by
    rw [List.map_append]
    exact nodup_concat h.endedOnce hended
  answered := fun id r hmem => List.mem_append_left _ (h.answered id r hmem)
  running := fun i hi => by
    obtain hactive | hended := h.running i hi
    · exact .inl hactive
    · rw [List.map_append]
      exact .inr (List.mem_append_left _ hended) }

private theorem Sound.free [DecidableEq ι] (hended : j.id ∈ s.ended.map Prod.fst) :
    Sound total perKey { s with active := without j.id s.active } := { h with
  active := (without_sublist _ _).trans h.active
  total := Nat.le_trans (without_sublist _ _).length_le h.total
  perKey := fun k => Nat.le_trans (ofKey_without_sublist k _ _).length_le (h.perKey k)
  running := fun i hi => by
    obtain hactive | hended' := h.running i hi
    · by_cases hid : i.id = j.id
      · exact .inr (hid ▸ hended)
      · exact .inl (List.mem_filter.mpr ⟨hactive, by simpa using hid⟩)
    · exact .inr hended' }

private theorem Sound.settle {id : ι} {r : ρ} (hended : (id, r) ∈ s.ended) (hsettled : id ∉ s.settled.map Prod.fst) :
    Sound total perKey { s with settled := s.settled ++ [(id, .ok r)] } := { h with
  settledOnce := by
    rw [List.map_append]
    exact nodup_concat h.settledOnce hsettled
  answered := fun i q hmem => by
    rcases List.mem_append.mp hmem with hmem | hmem
    · exact h.answered i q hmem
    · obtain ⟨rfl, hq⟩ := Prod.mk.inj (List.mem_singleton.mp hmem)
      obtain rfl := Except.ok.inj hq
      exact hended
  refused := fun i e hmem => by
    rcases List.mem_append.mp hmem with hmem | hmem
    · exact h.refused i e hmem
    · simp at hmem
  accounted := fun i hi => by
    obtain hw | hs | ⟨e, he⟩ := h.accounted i hi
    · exact .inl hw
    · exact .inr (.inl hs)
    · exact .inr (.inr ⟨e, List.mem_append_left _ he⟩) }

private theorem Sound.withdraw [DecidableEq ι] {e : ε} (hj : j ∈ s.waiting) :
    Sound total perKey { s with waiting := without j.id s.waiting, settled := s.settled ++ [(j.id, .error e)] } := { h with
  order := fun k => ((List.Sublist.refl _).append (ofKey_without_sublist k _ _)).trans (h.order k)
  settledOnce := by
    rw [List.map_append]
    exact nodup_concat h.settledOnce (h.waiting_not_settled hj)
  answered := fun id r hmem => by
    rcases List.mem_append.mp hmem with hmem | hmem
    · exact h.answered id r hmem
    · simp at hmem
  refused := fun id e hmem => by
    rcases List.mem_append.mp hmem with hmem | hmem
    · obtain ⟨hcalled, hstarted, hnot⟩ := h.refused id e hmem
      exact ⟨hcalled, hstarted, fun hid => hnot (((without_sublist _ _).map Job.id).subset hid)⟩
    · obtain ⟨rfl, -⟩ := Prod.mk.inj (List.mem_singleton.mp hmem)
      refine ⟨List.mem_map_of_mem (h.called_of_waiting hj), h.waiting_not_started hj, fun hid => ?_⟩
      obtain ⟨i, hi, hsame⟩ := List.mem_map.mp hid
      exact absurd hsame (by simpa using (List.mem_filter.mp hi).2)
  accounted := fun i hi => by
    obtain hw | hs | ⟨e, he⟩ := h.accounted i hi
    · by_cases hid : i.id = j.id
      · exact .inr (.inr ⟨e, List.mem_append_right _ (by rw [hid]; exact List.mem_singleton_self _)⟩)
      · exact .inl (List.mem_filter.mpr ⟨hw, by simpa using hid⟩)
    · exact .inr (.inl hs)
    · exact .inr (.inr ⟨e, List.mem_append_left _ he⟩) }

theorem Sound.step [DecidableEq ι] (hstep : Step total perKey s t) : Sound total perKey t := by
  cases hstep with
  | refuse hid => exact h.refuse hid
  | enqueue hid => exact h.enqueue hid
  | start hwaiting hmay => exact h.start hwaiting hmay
  | finish hj hended => exact h.finish hj hended
  | free _ hended => exact h.free hended
  | settle hended hsettled => exact h.settle hended hsettled
  | withdraw hj => exact h.withdraw hj

theorem Sound.steps [DecidableEq ι] (hsteps : Steps total perKey s t) : Sound total perKey t := by
  induction hsteps with
  | refl => exact h
  | tail _ hstep ih => exact ih.step hstep

/-- What holds a slot after some steps held it before them, or was started by them. -/
theorem Sound.active_steps [DecidableEq ι] (hsteps : Steps total perKey s t) :
    ids s.started ⊆ ids t.started ∧ ∀ j ∈ t.active, j ∈ s.active ∨ j.id ∉ ids s.started := by
  induction hsteps with
  | refl => exact ⟨fun _ h => h, fun _ => .inl⟩
  | @tail m t hsteps hstep ih =>
    have hm := h.steps hsteps
    have hgrow : ids m.started ⊆ ids t.started ∧ ∀ j ∈ t.active, j ∈ m.active ∨ j.id ∉ ids m.started := by
      cases hstep with
      | @start j before after hwaiting =>
        refine ⟨fun _ hid => ?_, fun i hi => ?_⟩
        · change _ ∈ ids (m.started ++ [j])
          rw [ids_append]
          exact List.mem_append_left _ hid
        · rcases List.mem_append.mp hi with hi | hi
          · exact .inl hi
          · rw [List.mem_singleton.mp hi]
            exact .inr (hm.waiting_not_started (by rw [hwaiting]; simp))
      | free => exact ⟨fun _ h => h, fun i hi => .inl ((without_sublist _ _).subset hi)⟩
      | refuse | enqueue | finish | settle | withdraw => exact ⟨fun _ h => h, fun _ => .inl⟩
    refine ⟨fun _ hid => hgrow.1 (ih.1 hid), fun j hj => ?_⟩
    obtain hactive | hnew := hgrow.2 j hj
    · exact ih.2 j hactive
    · exact .inr fun hid => hnew (ih.1 hid)

end

/-! ### Serving every job that may start -/

/-- Start the waiting jobs that may start, in order; `kept` were passed over. -/
def pumpFrom (total perKey : Nat) : List (Job ι κ) → List (Job ι κ) → Slots ι κ ρ ε → Slots ι κ ρ ε
  | kept, [], s => { s with waiting := kept }
  | kept, j :: rest, s =>
    if s.active.length < total then
      if perKey ≤ (ofKey j.key s.active).length ∨ ∃ v ∈ kept, v.key = j.key then
        pumpFrom total perKey (kept ++ [j]) rest s
      else pumpFrom total perKey kept rest (s.start j (kept ++ rest))
    else { s with waiting := kept ++ j :: rest }

def pump (total perKey : Nat) (s : Slots ι κ ρ ε) : Slots ι κ ρ ε := pumpFrom total perKey [] s.waiting s

theorem settled_pumpFrom (rest kept : List (Job ι κ)) (s : Slots ι κ ρ ε) :
    (pumpFrom total perKey kept rest s).settled = s.settled := by
  induction rest generalizing kept s with
  | nil => rfl
  | cons j rest ih =>
    rw [pumpFrom]
    split_ifs
    · exact ih ..
    · exact ih ..
    · rfl

@[simp] theorem settled_pump (s : Slots ι κ ρ ε) : (pump total perKey s).settled = s.settled := settled_pumpFrom ..

/-- No waiting job may start. -/
def Served (total perKey : Nat) (s : Slots ι κ ρ ε) : Prop :=
  ∀ before j after, s.waiting = before ++ j :: after → ¬s.MayStart total perKey before j

/-- What holds of a scheduler between any two steps. -/
structure Orderly (total perKey : Nat) (s : Slots ι κ ρ ε) : Prop where
  slots : s.active.length ≤ total
  keySlots : ∀ k, (ofKey k s.active).length ≤ perKey
  /-- Tasks of one key start in the order of the calls. -/
  order : ∀ k, (ofKey k s.started).Sublist (ofKey k s.called)
  startedOnce : (ids s.started).Nodup
  /-- A call is answered once. -/
  settledOnce : (s.settled.map Prod.fst).Nodup
  /-- With its task's result. -/
  answered : ∀ id r, (id, .ok r) ∈ s.settled → (id, r) ∈ s.ended ∧ id ∈ ids s.started
  /-- Or with a refusal, and its task never starts. -/
  refused : ∀ id e, (id, .error e) ∈ s.settled → id ∈ ids s.called ∧ id ∉ ids s.started ∧ id ∉ ids s.waiting
  /-- A call that is not answered waits, holds a slot, or its task has ended. -/
  accounted : ∀ j ∈ s.called, j.id ∈ s.settled.map Prod.fst ∨ j ∈ s.waiting ∨ j ∈ s.active ∨
    j.id ∈ s.ended.map Prod.fst
  served : Served total perKey s

private theorem steps_pumpFrom [DecidableEq ι] (rest kept : List (Job ι κ)) (s : Slots ι κ ρ ε) (hwaiting :
      s.waiting = kept ++ rest) :
    Steps total perKey s (pumpFrom total perKey kept rest s) := by
  induction rest generalizing kept s with
  | nil =>
    rw [List.append_nil] at hwaiting
    rw [pumpFrom, ← hwaiting]
  | cons j rest ih =>
    rw [pumpFrom]
    split_ifs with hroom hblocked
    · exact ih _ _ (by rw [hwaiting, List.append_assoc]; rfl)
    · rw [not_or, Nat.not_le] at hblocked
      have hmay : s.MayStart total perKey kept j := ⟨hroom, hblocked.1, fun v hv hkey => hblocked.2 ⟨v, hv, hkey⟩⟩
      exact .head (.start hwaiting hmay) (ih kept _ rfl)
    · rw [← hwaiting]

theorem steps_pump [DecidableEq ι] (s : Slots ι κ ρ ε) : Steps total perKey s (pump total perKey s) :=
  steps_pumpFrom s.waiting [] s rfl

theorem not_mayStart_start {before queue : List (Job ι κ)} {i : Job ι κ}
    (h : ¬s.MayStart total perKey before j) : ¬(s.start i queue).MayStart total perKey before j := by
  rintro ⟨htotal, hkey, hbefore⟩
  refine h ⟨?_, ?_, hbefore⟩
  · simp only [Slots.start, List.length_append] at htotal
    omega
  · simp only [Slots.start, ofKey_append, List.length_append] at hkey
    omega

theorem served_pumpFrom (rest kept : List (Job ι κ)) (s : Slots ι κ ρ ε)
    (hkept : ∀ before j after, kept = before ++ j :: after → ¬s.MayStart total perKey before j) :
    Served total perKey (pumpFrom total perKey kept rest s) := by
  induction rest generalizing kept s with
  | nil => exact hkept
  | cons j rest ih =>
    rw [pumpFrom]
    split_ifs with hroom hblocked
    · refine ih _ _ fun before i after hsplit => ?_
      have hlast : ¬s.MayStart total perKey kept j := by
        rintro ⟨-, hkey, hbefore⟩
        obtain hfull | ⟨v, hv, hsame⟩ := hblocked
        · omega
        · exact hbefore v hv hsame
      rcases List.append_eq_append_iff.mp hsplit with ⟨extra, rfl, hrest⟩ | ⟨extra, hkeep, hrest⟩
      · cases extra with
        | nil =>
          obtain ⟨rfl, -⟩ := List.cons.inj hrest
          simpa using hlast
        | cons first extra => simp at hrest
      · cases extra with
        | nil =>
          obtain ⟨rfl, -⟩ := List.cons.inj hrest
          rw [List.append_nil] at hkeep
          exact hkeep ▸ hlast
        | cons first extra =>
          obtain ⟨rfl, -⟩ := List.cons.inj hrest
          exact hkept before _ extra hkeep
    · exact ih kept _ fun before i after hsplit => not_mayStart_start (hkept before i after hsplit)
    · rintro before i after - ⟨htotal, -⟩
      exact hroom htotal

theorem served_pump (s : Slots ι κ ρ ε) : Served total perKey (pump total perKey s) :=
  served_pumpFrom s.waiting [] s fun before j after h => by simp at h

/-- Every job that waits finds all slots, or all of its key, taken. -/
theorem served_iff : Served total perKey s ↔
    ∀ j ∈ s.waiting, total ≤ s.active.length ∨ perKey ≤ (ofKey j.key s.active).length := by
  constructor
  · intro h j hj
    -- The first waiting job of the key has none before it, so it is a limit that stops it.
    have hsome : (s.waiting.find? (·.key = j.key)).isSome := List.find?_isSome.mpr ⟨j, hj, decide_eq_true rfl⟩
    obtain ⟨first, hfirst⟩ := Option.isSome_iff_exists.mp hsome
    obtain ⟨hkey, before, after, hsplit, hbefore⟩ := List.find?_eq_some_iff_append.mp hfirst
    replace hkey := of_decide_eq_true hkey
    have hno := h before first after hsplit
    by_contra hfree
    rw [not_or, Nat.not_le, Nat.not_le] at hfree
    refine hno ⟨hfree.1, by rw [hkey]; exact hfree.2, fun v hv => ?_⟩
    rw [hkey]
    simpa using hbefore v hv
  · rintro h before j after hsplit ⟨htotal, hkey, -⟩
    obtain hfull | hfull := h j (by rw [hsplit]; exact List.mem_append_right _ List.mem_cons_self)
    · omega
    · omega

/-- Fewer that wait and more that hold slots leave every job served. -/
theorem Served.mono (h : Served total perKey s) (hwaiting : ∀ v ∈ t.waiting, v ∈ s.waiting)
    (hactive : s.active.Sublist t.active) : Served total perKey t := by
  refine served_iff.mpr fun j hj => ?_
  have hlength := hactive.length_le
  have hkey : (ofKey j.key s.active).length ≤ (ofKey j.key t.active).length := (hactive.filter _).length_le
  have hfull := served_iff.mp h j (hwaiting j hj)
  omega

/-- A call's job at the end of the queue starts at once, if no job of its key waits before it. -/
theorem steps_startNow [DecidableEq ι] (hid : j.id ∉ ids s.called) (hmay : s.MayStart total perKey s.waiting j) :
    Steps total perKey s (({ s with called := s.called ++ [j] } : Slots ι κ ρ ε).start j s.waiting) := by
  have hstart : Step total perKey ({ s with called := s.called ++ [j], waiting := s.waiting ++ [j] } : Slots ι κ ρ ε)
      (({ s with called := s.called ++ [j] } : Slots ι κ ρ ε).start j (s.waiting ++ [])) := .start rfl hmay
  rw [List.append_nil] at hstart
  exact .head (.enqueue hid) (.single hstart)

/-- Where every job is served, none of a key waits that has a slot free. -/
theorem Served.mayStart (h : Served total perKey s) (htotal : s.active.length < total)
    (hkey : (ofKey j.key s.active).length < perKey) : s.MayStart total perKey s.waiting j := by
  refine ⟨htotal, hkey, fun v hv hsame => ?_⟩
  have hfull := served_iff.mp h v hv
  rw [hsame] at hfull
  omega

/-! ### What a caller may rely on -/

theorem Sound.orderly (h : Sound total perKey s) (hserved : Served total perKey s) : Orderly total perKey s := { h with
  slots := h.total
  keySlots := h.perKey
  order := fun k => (List.sublist_append_left _ _).trans (h.order k)
  answered := fun id r hmem => ⟨h.answered id r hmem, h.ended _ (h.answered id r hmem)⟩
  accounted := fun j hj => by
    obtain hw | hs | ⟨e, he⟩ := h.accounted j hj
    · exact .inr (.inl hw)
    · exact .inr (.inr (h.running j hs))
    · exact .inl (List.mem_map_of_mem he)
  served := hserved }

/-- Nothing is stuck: when no job holds a slot, and the calls of all ended tasks are answered, all calls are. -/
theorem Orderly.settled (h : Orderly total perKey s) (htotal : 0 < total) (hperKey : 0 < perKey)
    (hidle : s.active = []) (hended : ∀ e ∈ s.ended, e.1 ∈ s.settled.map Prod.fst) (hj : j ∈ s.called) :
    j.id ∈ s.settled.map Prod.fst := by
  obtain hsettled | hwaiting | hactive | hid := h.accounted j hj
  · exact hsettled
  · have hfull := served_iff.mp h.served j hwaiting
    rw [hidle, ofKey_nil, List.length_nil] at hfull
    omega
  · rw [hidle] at hactive
    cases hactive
  · obtain ⟨e, he, hsame⟩ := List.mem_map.mp hid
    rw [← hsame]
    exact hended e he

/-! ### The end -/

/-- When every call is answered, nothing waits, and a slot is held by a task that has ended only. -/
theorem Sound.idle (h : Sound total perKey s) (hsettled : ∀ j ∈ s.called, j.id ∈ s.settled.map Prod.fst) :
    s.waiting = [] ∧ ∀ j ∈ s.active, j.id ∈ s.ended.map Prod.fst := by
  refine ⟨List.eq_nil_iff_forall_not_mem.mpr fun j hj => ?_, fun j hj => ?_⟩
  · exact h.waiting_not_settled hj (hsettled j (h.called_of_waiting hj))
  · have hstarted := h.active.subset hj
    obtain ⟨⟨id, outcome⟩, hmem, rfl⟩ := List.mem_map.mp (hsettled j (h.called_of_started hstarted))
    cases outcome with
    | ok r => exact List.mem_map_of_mem (h.answered _ r hmem)
    | error e => exact absurd (List.mem_map_of_mem hstarted) (h.refused _ e hmem).2.1

end Slots
