import Sightr.Lib.Runs
import Sightr.Lib.Slots

/-!
# The schedulers of the git processes

`createGate` of `bridge/workdir-review.ts` bounds the review's processes, `createStoreQueue` of
`bridge/threads/checkpoint-git.ts` gives each checkpoint store one task at a time. Both count running tasks and
pump a queue when a task ends; timers take jobs from the middle of the queue. A task's promise settles, its slot is
freed and its call is answered in separate promise jobs: the gate frees before it answers, the store queue after. A
pump starts at most one task, so calls a task makes while it starts come after the pump.
-/

namespace Sightr

open Slots

variable {ι κ ρ : Type*} [DecidableEq ι] [DecidableEq κ]

/-! ### The gate -/

inductive GateRefusal
  | busy | timeout
  deriving DecidableEq

structure GateLimits where
  maxGit : Nat
  maxPerRepo : Nat
  maxQueue : Nat

/-- The gate: what it counts, beside all that happened so far; the queue is the jobs that wait. -/
structure Gate (ι κ ρ : Type*) extends Slots ι κ ρ GateRefusal where
  running : Nat
  /-- The running tasks of each repository; one without an entry has none. -/
  perRepo : κ → Nat

inductive GateEvent (ι κ ρ : Type*)
  /-- A call; `late` says that its deadline has passed. -/
  | schedule (job : Job ι κ) (late : Bool)
  | ends (id : ι) (result : ρ)
  | freed (id : ι)
  | answered (id : ι)
  | timer (id : ι)

namespace Gate

def empty : Gate ι κ ρ := { Slots.empty with running := 0, perRepo := fun _ => 0 }

def start (g : Gate ι κ ρ) (w : Job ι κ) (queue : List (Job ι κ)) : Gate ι κ ρ :=
  { g.toSlots.start w queue with
    running := g.running + 1, perRepo := Function.update g.perRepo w.key (g.perRepo w.key + 1) }

/-- The loop of `pump`; `kept` are the waiters before the index. -/
def pumpFrom (c : GateLimits) : List (Job ι κ) → List (Job ι κ) → Gate ι κ ρ → Gate ι κ ρ
  | kept, [], g => { g with waiting := kept }
  | kept, w :: rest, g =>
    if g.running < c.maxGit then
      if c.maxPerRepo ≤ g.perRepo w.key then pumpFrom c (kept ++ [w]) rest g
      else pumpFrom c kept rest (g.start w (kept ++ rest))
    else { g with waiting := kept ++ w :: rest }

def pump (c : GateLimits) (g : Gate ι κ ρ) : Gate ι κ ρ := pumpFrom c [] g.waiting g

def schedule (c : GateLimits) (g : Gate ι κ ρ) (job : Job ι κ) (late : Bool) : Gate ι κ ρ :=
  let called := g.called ++ [job]
  if late then { g with called, settled := g.settled ++ [(job.id, .error .timeout)] }
  else if g.running < c.maxGit ∧ g.perRepo job.key < c.maxPerRepo then ({ g with called } :
      Gate ι κ ρ).start job g.waiting
  else if c.maxQueue ≤ g.waiting.length then { g with called, settled := g.settled ++ [(job.id, .error .busy)] }
  else { g with called, waiting := g.waiting ++ [job] }

def step (c : GateLimits) (g : Gate ι κ ρ) : GateEvent ι κ ρ → Option (Gate ι κ ρ)
  | .schedule job late => if job.id ∈ ids g.called then none else some (g.schedule c job late)
  | .ends id result =>
    if id ∈ ids g.active ∧ id ∉ g.ended.map Prod.fst then some { g with ended := g.ended ++ [(id, result)] } else none
  | .freed id =>
    match g.active.find? (·.id = id) with
    | none => none
    | some job =>
      if id ∈ g.ended.map Prod.fst then
        some (pump c { g with
          active := without id g.active
          running := g.running - 1, perRepo := Function.update g.perRepo job.key (g.perRepo job.key - 1) })
      else none
  | .answered id =>
    match g.ended.find? (·.1 = id) with
    | none => none
    | some (_, result) =>
      -- The call is answered after its slot was freed.
      if id ∈ ids g.active ∨ id ∈ g.settled.map Prod.fst then none
      else some { g with settled := g.settled ++ [(id, .ok result)] }
  | .timer id =>
    if id ∈ ids g.waiting then
      some { g with waiting := without id g.waiting, settled := g.settled ++ [(id, .error .timeout)] }
    else none

structure Counted (g : Gate ι κ ρ) : Prop where
  running : g.running = g.active.length
  perRepo : ∀ k, g.perRepo k = (ofKey k g.active).length

variable {c : GateLimits} {g g' : Gate ι κ ρ}

omit [DecidableEq ι] in
theorem Counted.start (h : g.Counted) (w : Job ι κ) (queue : List (Job ι κ)) : (g.start w queue).Counted where
  running := by
    change g.running + 1 = (g.active ++ [w]).length
    rw [h.running, List.length_append]
    rfl
  perRepo k := by
    change Function.update g.perRepo w.key (g.perRepo w.key + 1) k = (ofKey k (g.active ++ [w])).length
    rw [ofKey_append, ofKey_cons, ofKey_nil, List.length_append]
    by_cases hk : k = w.key
    · rw [hk, Function.update_self, if_pos rfl, h.perRepo]
      rfl
    · rw [Function.update_of_ne hk, if_neg (Ne.symm hk), h.perRepo]
      rfl

private theorem Counted.freed (h : g.Counted) (honce : (ids g.active).Nodup) {job : Job ι κ} (hjob : job ∈ g.active) :
    ({ g with
      active := without job.id g.active
      running := g.running - 1, perRepo := Function.update g.perRepo job.key (g.perRepo job.key - 1) } :
        Gate ι κ ρ).Counted := by
  obtain ⟨before, after, hsplit⟩ := List.append_of_mem hjob
  have hwithout : without job.id g.active = before ++ after := by
    rw [hsplit] at honce ⊢
    exact without_mid honce
  constructor
  · change g.running - 1 = (without job.id g.active).length
    rw [h.running, hwithout, hsplit]
    simp
  · intro k
    change Function.update g.perRepo job.key (g.perRepo job.key - 1) k = (ofKey k (without job.id g.active)).length
    rw [hwithout]
    by_cases hk : k = job.key
    · rw [hk, Function.update_self, h.perRepo, hsplit, ofKey_append, ofKey_cons, if_pos rfl, ofKey_append]
      simp
    · rw [Function.update_of_ne hk, h.perRepo, hsplit, ofKey_append, ofKey_cons, if_neg (Ne.symm hk), ofKey_append]

omit [DecidableEq ι] in
private theorem toSlots_pumpFrom (rest kept : List (Job ι κ)) (g : Gate ι κ ρ) (h : g.Counted)
    (hkept : ∀ v ∈ kept, c.maxPerRepo ≤ (ofKey v.key g.active).length) :
    (pumpFrom c kept rest g).toSlots = Slots.pumpFrom c.maxGit c.maxPerRepo kept rest g.toSlots ∧
      (pumpFrom c kept rest g).Counted := by
  induction rest generalizing kept g with
  | nil => exact ⟨rfl, h.running, h.perRepo⟩
  | cons w rest ih =>
    have hblocked : (c.maxPerRepo ≤ g.perRepo w.key) ↔
        (c.maxPerRepo ≤ (ofKey w.key g.active).length ∨ ∃ v ∈ kept, v.key = w.key) := by
      rw [h.perRepo]
      refine ⟨.inl, ?_⟩
      rintro (hfull | ⟨v, hv, hkey⟩)
      · exact hfull
      · exact hkey ▸ hkept v hv
    rw [pumpFrom, Slots.pumpFrom, ← h.running]
    by_cases hroom : g.running < c.maxGit
    · rw [if_pos hroom, if_pos hroom]
      by_cases hfull : c.maxPerRepo ≤ g.perRepo w.key
      · rw [if_pos hfull, if_pos (hblocked.mp hfull)]
        refine ih _ g h fun v hv => ?_
        rcases List.mem_append.mp hv with hv | hv
        · exact hkept v hv
        · rw [List.mem_singleton.mp hv, ← h.perRepo]
          exact hfull
      · rw [if_neg hfull, if_neg (hblocked.not.mp hfull)]
        refine ih kept _ (h.start w _) fun v hv => Nat.le_trans (hkept v hv) ?_
        change _ ≤ (ofKey v.key (g.active ++ [w])).length
        rw [ofKey_append, List.length_append]
        exact Nat.le_add_right _ _
    · rw [if_neg hroom, if_neg hroom]
      exact ⟨rfl, h.running, h.perRepo⟩

omit [DecidableEq ι] in
theorem toSlots_pump (h : g.Counted) :
    (g.pump c).toSlots = g.toSlots.pump c.maxGit c.maxPerRepo ∧ (g.pump c).Counted :=
  toSlots_pumpFrom g.waiting [] g h fun v hv => by cases hv

structure Kept (c : GateLimits) (g : Gate ι κ ρ) : Prop where
  sound : Sound c.maxGit c.maxPerRepo g.toSlots
  counted : g.Counted
  served : Served c.maxGit c.maxPerRepo g.toSlots

private theorem Kept.schedule (h : g.Kept c) (job : Job ι κ) (late : Bool) (hfresh : job.id ∉ ids g.called) :
    Steps c.maxGit c.maxPerRepo g.toSlots (g.schedule c job late).toSlots ∧ (g.schedule c job late).Counted ∧
      Served c.maxGit c.maxPerRepo (g.schedule c job late).toSlots := by
  have hsame : ∀ {t : Gate ι κ ρ}, t.running = g.running → t.perRepo = g.perRepo → t.active = g.active →
      t.Counted := fun hrunning hperRepo hactive =>
    ⟨by rw [hrunning, hactive, h.counted.running], fun k => by rw [hperRepo, hactive, h.counted.perRepo]⟩
  unfold Gate.schedule
  dsimp only
  split_ifs with hlate hroom hfull
  · exact ⟨.single (.refuse hfresh), hsame rfl rfl rfl, h.served.mono (fun _ hv => hv) (List.Sublist.refl _)⟩
  · rw [h.counted.running, h.counted.perRepo] at hroom
    have hcalled : ({ g with called := g.called ++ [job] } : Gate ι κ ρ).Counted := hsame rfl rfl rfl
    refine ⟨steps_startNow hfresh (h.served.mayStart hroom.1 hroom.2), hcalled.start job g.waiting, ?_⟩
    exact h.served.mono (fun _ hv => hv) (List.sublist_append_left _ _)
  · exact ⟨.single (.refuse hfresh), hsame rfl rfl rfl, h.served.mono (fun _ hv => hv) (List.Sublist.refl _)⟩
  · refine ⟨.single (.enqueue hfresh), hsame rfl rfl rfl, served_iff.mpr fun v hv => ?_⟩
    rcases List.mem_append.mp hv with hv | hv
    · exact served_iff.mp h.served v hv
    · rw [List.mem_singleton.mp hv]
      rw [h.counted.running, h.counted.perRepo] at hroom
      change _ ≤ g.active.length ∨ _ ≤ (ofKey job.key g.active).length
      omega

variable {event : GateEvent ι κ ρ}

/-- A step of the gate is a run of steps of a scheduler with slots, after which its counts are right and every job is
served. -/
theorem steps_of_step (h : g.Kept c) (hstep : g.step c event = some g') :
    Steps c.maxGit c.maxPerRepo g.toSlots g'.toSlots ∧ g'.Counted ∧ Served c.maxGit c.maxPerRepo g'.toSlots := by
  cases event with
  | schedule job late =>
    simp only [step] at hstep
    split_ifs at hstep with hfresh
    cases hstep
    exact h.schedule job late hfresh
  | ends id result =>
    simp only [step] at hstep
    split_ifs at hstep with hends
    cases hstep
    obtain ⟨job, hjob, rfl⟩ := List.mem_map.mp hends.1
    exact ⟨.single (.finish hjob hends.2), ⟨h.counted.running, h.counted.perRepo⟩,
      h.served.mono (fun _ hv => hv) (List.Sublist.refl _)⟩
  | freed id =>
    simp only [step] at hstep
    split at hstep
    · cases hstep
    · rename_i job hjob
      split_ifs at hstep with hended
      cases hstep
      have hactive := List.mem_of_find?_eq_some hjob
      obtain rfl : job.id = id := by simpa using List.find?_some hjob
      obtain ⟨hslots, hcounted⟩ := toSlots_pump (c := c) (h.counted.freed h.sound.activeOnce hactive)
      rw [hslots]
      exact ⟨.head (.free hactive hended) (steps_pump _), hcounted, served_pump _⟩
  | answered id =>
    simp only [step] at hstep
    split at hstep
    · cases hstep
    · rename_i found result hfound
      split_ifs at hstep with hwait
      cases hstep
      rw [not_or] at hwait
      have hended : (id, result) ∈ g.ended := by
        have hid : found = id := by simpa using List.find?_some hfound
        exact hid ▸ List.mem_of_find?_eq_some hfound
      exact ⟨.single (.settle hended hwait.2), ⟨h.counted.running, h.counted.perRepo⟩,
        h.served.mono (fun _ hv => hv) (List.Sublist.refl _)⟩
  | timer id =>
    simp only [step] at hstep
    split_ifs at hstep with hwaiting
    cases hstep
    obtain ⟨job, hjob, rfl⟩ := List.mem_map.mp hwaiting
    exact ⟨.single (.withdraw hjob), ⟨h.counted.running, h.counted.perRepo⟩,
      h.served.mono (fun _ hv => (without_sublist _ _).subset hv) (List.Sublist.refl _)⟩

theorem Kept.step (h : g.Kept c) (hstep : g.step c event = some g') : g'.Kept c :=
  have ⟨hsteps, hcounted, hserved⟩ := steps_of_step h hstep
  ⟨h.sound.steps hsteps, hcounted, hserved⟩

omit [DecidableEq ι] in
theorem kept_empty : (empty : Gate ι κ ρ).Kept c where
  sound := sound_empty
  counted := ⟨rfl, fun _ => rfl⟩
  served before j after h := by simp [empty, Slots.empty] at h

/-- The calls with a result are those whose slots were freed before. -/
def FreesFirst (g : Gate ι κ ρ) : Prop := ∀ id r, (id, .ok r) ∈ g.settled → id ∉ ids g.active

theorem answered_of_step (h : g.Kept c) (hstep : g.step c event = some g') {id : ι} {r : ρ}
    (hmem : (id, .ok r) ∈ g'.settled) : (id, .ok r) ∈ g.settled ∨ id ∉ ids g'.active := by
  cases event with
  | schedule job late =>
    simp only [step] at hstep
    split_ifs at hstep
    cases hstep
    unfold Gate.schedule at hmem
    dsimp only at hmem
    split_ifs at hmem
    · exact .inl (by simpa using hmem)
    · exact .inl hmem
    · exact .inl (by simpa using hmem)
    · exact .inl hmem
  | ends id result =>
    simp only [step] at hstep
    split_ifs at hstep
    cases hstep
    exact .inl hmem
  | freed id =>
    simp only [step] at hstep
    split at hstep
    · cases hstep
    · rename_i job hjob
      split_ifs at hstep
      cases hstep
      obtain rfl : job.id = id := by simpa using List.find?_some hjob
      rw [(toSlots_pump (c := c)
        (h.counted.freed h.sound.activeOnce (List.mem_of_find?_eq_some hjob))).1, settled_pump] at hmem
      exact .inl hmem
  | answered other =>
    simp only [step] at hstep
    split at hstep
    · cases hstep
    · split_ifs at hstep with hwait
      cases hstep
      rcases List.mem_append.mp hmem with hmem | hmem
      · exact .inl hmem
      · obtain ⟨rfl, -⟩ := Prod.mk.inj (List.mem_singleton.mp hmem)
        exact .inr (not_or.mp hwait).1
  | timer id =>
    simp only [step] at hstep
    split_ifs at hstep
    cases hstep
    exact .inl (by simpa using hmem)

theorem FreesFirst.step (hfirst : g.FreesFirst) (h : g.Kept c) (hstep : g.step c event = some g') :
    g'.FreesFirst := by
  intro id r hmem
  obtain hmem | hfreed := answered_of_step h hstep hmem
  · intro hactive
    obtain ⟨job, hjob, rfl⟩ := List.mem_map.mp hactive
    obtain hheld | hnew := (h.sound.active_steps (steps_of_step h hstep).1).2 job hjob
    · exact hfirst _ r hmem (List.mem_map_of_mem hheld)
    · exact hnew (h.sound.ended _ (h.sound.answered _ r hmem))
  · exact hfreed

end Gate

/-! ### The queue of the checkpoint stores -/

inductive StoreRefusal
  | busy
  deriving DecidableEq

structure StoreLimits where
  maxActive : Nat
  maxQueued : Nat

/-- The queue of the stores: what it counts, beside all that happened so far. -/
structure StoreQueue (ι κ ρ : Type*) extends Slots ι κ ρ StoreRefusal where
  activeCount : Nat
  busy : κ → Bool
  deadlined : List ι

inductive StoreEvent (ι κ ρ : Type*)
  /-- A call, with no deadline, or with one that has passed or not. -/
  | run (job : Job ι κ) (deadline : Option Bool)
  | ends (id : ι) (result : ρ)
  | answered (id : ι)
  | freed (id : ι)
  | timer (id : ι)

namespace StoreQueue

def empty : StoreQueue ι κ ρ := { Slots.empty with activeCount := 0, busy := fun _ => false, deadlined := [] }

def start (q : StoreQueue ι κ ρ) (job : Job ι κ) (queue : List (Job ι κ)) : StoreQueue ι κ ρ :=
  { q.toSlots.start job queue with
    activeCount := q.activeCount + 1, busy := Function.update q.busy job.key true, deadlined := q.deadlined }

/-- The loop of `pump`; `kept` are the jobs before the index. -/
def pumpFrom (c : StoreLimits) : List (Job ι κ) → List (Job ι κ) → StoreQueue ι κ ρ → StoreQueue ι κ ρ
  | kept, [], q => { q with waiting := kept }
  | kept, job :: rest, q =>
    if q.activeCount < c.maxActive then
      -- An earlier job for the same store blocks this one.
      if q.busy job.key ∨ ∃ j ∈ kept, j.key = job.key then pumpFrom c (kept ++ [job]) rest q
      else pumpFrom c kept rest (q.start job (kept ++ rest))
    else { q with waiting := kept ++ job :: rest }

def pump (c : StoreLimits) (q : StoreQueue ι κ ρ) : StoreQueue ι κ ρ := pumpFrom c [] q.waiting q

def run (c : StoreLimits) (q : StoreQueue ι κ ρ) (job : Job ι κ) (deadline : Option Bool) : StoreQueue ι κ ρ :=
  let called := q.called ++ [job]
  let deadlined := if deadline.isSome then q.deadlined ++ [job.id] else q.deadlined
  if deadline.isSome ∧ (deadline = some true ∨ c.maxQueued ≤ (q.waiting.filter (·.id ∈ q.deadlined)).length) then
    { q with called, deadlined, settled := q.settled ++ [(job.id, .error .busy)] }
  else pump c { q with called, deadlined, waiting := q.waiting ++ [job] }

def step (c : StoreLimits) (q : StoreQueue ι κ ρ) : StoreEvent ι κ ρ → Option (StoreQueue ι κ ρ)
  | .run job deadline => if job.id ∈ ids q.called then none else some (q.run c job deadline)
  | .ends id result =>
    if id ∈ ids q.active ∧ id ∉ q.ended.map Prod.fst then some { q with ended := q.ended ++ [(id, result)] } else none
  | .answered id =>
    match q.ended.find? (·.1 = id) with
    | none => none
    | some (_, result) =>
      if id ∈ q.settled.map Prod.fst then none else some { q with settled := q.settled ++ [(id, .ok result)] }
  | .freed id =>
    match q.active.find? (·.id = id) with
    | none => none
    | some job =>
      -- The slot is freed after the call was answered.
      if id ∈ q.ended.map Prod.fst ∧ id ∈ q.settled.map Prod.fst then
        some (pump c { q with
          active := without id q.active
          activeCount := q.activeCount - 1, busy := Function.update q.busy job.key false })
      else none
  | .timer id =>
    if id ∈ ids q.waiting ∧ id ∈ q.deadlined then
      some (pump c { q with waiting := without id q.waiting, settled := q.settled ++ [(id, .error .busy)] })
    else none

structure Counted (q : StoreQueue ι κ ρ) : Prop where
  activeCount : q.activeCount = q.active.length
  busy : ∀ k, q.busy k = true ↔ 1 ≤ (ofKey k q.active).length

variable {c : StoreLimits} {q q' : StoreQueue ι κ ρ}

omit [DecidableEq ι] in
theorem Counted.start (h : q.Counted) (job : Job ι κ) (queue : List (Job ι κ)) : (q.start job queue).Counted where
  activeCount := by
    change q.activeCount + 1 = (q.active ++ [job]).length
    rw [h.activeCount, List.length_append]
    rfl
  busy k := by
    change Function.update q.busy job.key true k = true ↔ 1 ≤ (ofKey k (q.active ++ [job])).length
    rw [ofKey_append, ofKey_cons, ofKey_nil, List.length_append]
    by_cases hk : k = job.key
    · rw [hk, Function.update_self, if_pos rfl]
      simp
    · rw [Function.update_of_ne hk, if_neg (Ne.symm hk), h.busy]
      rfl

private theorem Counted.freed (h : q.Counted) (honce : (ids q.active).Nodup) {job : Job ι κ} (hjob : job ∈ q.active)
    (hone : (ofKey job.key q.active).length ≤ 1) :
    ({ q with
      active := without job.id q.active
      activeCount := q.activeCount - 1, busy := Function.update q.busy job.key false } :
        StoreQueue ι κ ρ).Counted := by
  obtain ⟨before, after, hsplit⟩ := List.append_of_mem hjob
  have hwithout : without job.id q.active = before ++ after := by
    rw [hsplit] at honce ⊢
    exact without_mid honce
  rw [hsplit, ofKey_append, ofKey_cons, if_pos rfl] at hone
  constructor
  · change q.activeCount - 1 = (without job.id q.active).length
    rw [h.activeCount, hwithout, hsplit]
    simp
  · intro k
    change Function.update q.busy job.key false k = true ↔ 1 ≤ (ofKey k (without job.id q.active)).length
    rw [hwithout, ofKey_append, List.length_append]
    by_cases hk : k = job.key
    · rw [hk, Function.update_self]
      simp only [List.length_append, List.length_cons] at hone
      refine iff_of_false (by simp) ?_
      omega
    · rw [Function.update_of_ne hk, h.busy, hsplit, ofKey_append, ofKey_cons, if_neg (Ne.symm hk),
        List.length_append]

omit [DecidableEq ι] in
private theorem toSlots_pumpFrom (rest kept : List (Job ι κ)) (q : StoreQueue ι κ ρ) (h : q.Counted) :
    (pumpFrom c kept rest q).toSlots = Slots.pumpFrom c.maxActive 1 kept rest q.toSlots ∧
      (pumpFrom c kept rest q).Counted := by
  induction rest generalizing kept q with
  | nil => exact ⟨rfl, h.activeCount, h.busy⟩
  | cons job rest ih =>
    rw [pumpFrom, Slots.pumpFrom, ← h.activeCount]
    simp only [← h.busy job.key]
    split_ifs with hroom hblocked
    · exact ih _ q h
    · exact ih kept _ (h.start job _)
    · exact ⟨rfl, h.activeCount, h.busy⟩

omit [DecidableEq ι] in
theorem toSlots_pump (h : q.Counted) : (q.pump c).toSlots = q.toSlots.pump c.maxActive 1 ∧ (q.pump c).Counted :=
  toSlots_pumpFrom q.waiting [] q h

structure Kept (c : StoreLimits) (q : StoreQueue ι κ ρ) : Prop where
  sound : Sound c.maxActive 1 q.toSlots
  counted : q.Counted
  served : Served c.maxActive 1 q.toSlots

theorem steps_then_pump {s : Slots ι κ ρ StoreRefusal} (hstep : Slots.Step c.maxActive 1 s q.toSlots)
    (h : q.Counted) :
    Steps c.maxActive 1 s (q.pump c).toSlots ∧ (q.pump c).Counted ∧ Served c.maxActive 1 (q.pump c).toSlots := by
  obtain ⟨hslots, hcounted⟩ := toSlots_pump (c := c) h
  rw [hslots]
  exact ⟨.head hstep (steps_pump _), hcounted, served_pump _⟩

variable {event : StoreEvent ι κ ρ}

/-- A step of the queue is a run of steps of a scheduler with one slot a store, after which its counts are right and
every job is served. -/
theorem steps_of_step (h : q.Kept c) (hstep : q.step c event = some q') :
    Steps c.maxActive 1 q.toSlots q'.toSlots ∧ q'.Counted ∧ Served c.maxActive 1 q'.toSlots := by
  cases event with
  | run job deadline =>
    simp only [step] at hstep
    split_ifs at hstep with hfresh
    cases hstep
    unfold StoreQueue.run
    dsimp only
    by_cases hrefused : deadline.isSome ∧
        (deadline = some true ∨ c.maxQueued ≤ (q.waiting.filter (·.id ∈ q.deadlined)).length)
    · rw [if_pos hrefused]
      exact ⟨.single (.refuse hfresh), ⟨h.counted.activeCount, h.counted.busy⟩,
        h.served.mono (fun _ hv => hv) (List.Sublist.refl _)⟩
    · rw [if_neg hrefused]
      exact steps_then_pump (.enqueue hfresh) ⟨h.counted.activeCount, h.counted.busy⟩
  | ends id result =>
    simp only [step] at hstep
    split_ifs at hstep with hends
    cases hstep
    obtain ⟨job, hjob, rfl⟩ := List.mem_map.mp hends.1
    exact ⟨.single (.finish hjob hends.2), ⟨h.counted.activeCount, h.counted.busy⟩,
      h.served.mono (fun _ hv => hv) (List.Sublist.refl _)⟩
  | answered id =>
    simp only [step] at hstep
    split at hstep
    · cases hstep
    · rename_i found result hfound
      split_ifs at hstep with hsettled
      cases hstep
      have hended : (id, result) ∈ q.ended := by
        have hid : found = id := by simpa using List.find?_some hfound
        exact hid ▸ List.mem_of_find?_eq_some hfound
      exact ⟨.single (.settle hended hsettled), ⟨h.counted.activeCount, h.counted.busy⟩,
        h.served.mono (fun _ hv => hv) (List.Sublist.refl _)⟩
  | freed id =>
    simp only [step] at hstep
    split at hstep
    · cases hstep
    · rename_i job hjob
      split_ifs at hstep with hended
      cases hstep
      have hactive := List.mem_of_find?_eq_some hjob
      obtain rfl : job.id = id := by simpa using List.find?_some hjob
      exact steps_then_pump (.free hactive hended.1)
        (h.counted.freed h.sound.activeOnce hactive (h.sound.perKey job.key))
  | timer id =>
    simp only [step] at hstep
    split_ifs at hstep with hwaiting
    cases hstep
    obtain ⟨job, hjob, rfl⟩ := List.mem_map.mp hwaiting.1
    exact steps_then_pump (.withdraw hjob) ⟨h.counted.activeCount, h.counted.busy⟩

theorem Kept.step (h : q.Kept c) (hstep : q.step c event = some q') : q'.Kept c :=
  have ⟨hsteps, hcounted, hserved⟩ := steps_of_step h hstep
  ⟨h.sound.steps hsteps, hcounted, hserved⟩

omit [DecidableEq ι] in
theorem kept_empty : (empty : StoreQueue ι κ ρ).Kept c where
  sound := sound_empty
  counted := ⟨rfl, fun k => by simp [empty, Slots.empty]⟩
  served before j after h := by simp [empty, Slots.empty] at h

end StoreQueue

/-! ### Fair, bounded and never stuck -/

structure Gate.Fair (c : GateLimits) (g : Gate ι κ ρ) : Prop where
  orderly : Orderly c.maxGit c.maxPerRepo g.toSlots
  counted : g.Counted
  /-- When no task runs, all calls are settled, but those whose promise job is still to come. -/
  settled : 0 < c.maxGit → 0 < c.maxPerRepo → g.active = [] → (∀ e ∈ g.ended, e.1 ∈ g.settled.map Prod.fst) →
    ∀ j ∈ g.called, j.id ∈ g.settled.map Prod.fst
  /-- When all calls are settled, nothing is left. -/
  idle : (∀ j ∈ g.called, j.id ∈ g.settled.map Prod.fst) →
    g.waiting = [] ∧ g.active = [] ∧ g.running = 0 ∧ ∀ k, g.perRepo k = 0

/-- What holds of the queue of the stores after every step. -/
structure StoreQueue.Fair (c : StoreLimits) (q : StoreQueue ι κ ρ) : Prop where
  orderly : Orderly c.maxActive 1 q.toSlots
  counted : q.Counted
  settled : 0 < c.maxActive → q.active = [] → (∀ e ∈ q.ended, e.1 ∈ q.settled.map Prod.fst) →
    ∀ j ∈ q.called, j.id ∈ q.settled.map Prod.fst
  /-- When all calls are settled, nothing waits and no task runs; what is still counted are tasks that ended, until
  their `finally` has run. -/
  idle : (∀ j ∈ q.called, j.id ∈ q.settled.map Prod.fst) →
    q.waiting = [] ∧ (∀ j ∈ q.active, j.id ∈ q.ended.map Prod.fst) ∧
      ((∀ j ∈ q.active, j.id ∉ q.ended.map Prod.fst) → q.active = [] ∧ q.activeCount = 0 ∧ ∀ k, q.busy k = false)

omit [DecidableEq ι] in
private theorem Gate.Kept.fair {c : GateLimits} {g : Gate ι κ ρ} (h : g.Kept c) (hfirst : g.FreesFirst) :
    g.Fair c where
  orderly := h.sound.orderly h.served
  counted := h.counted
  settled hgit hrepo hidle hended j hj := (h.sound.orderly h.served).settled hgit hrepo hidle hended hj
  idle hsettled := by
    obtain ⟨hwaiting, hended⟩ := h.sound.idle hsettled
    have hactive : g.active = [] := by
      refine List.eq_nil_iff_forall_not_mem.mpr fun j hj => ?_
      have hstarted := h.sound.active.subset hj
      obtain ⟨⟨id, outcome⟩, hmem, rfl⟩ := List.mem_map.mp (hsettled j (h.sound.called_of_started hstarted))
      cases outcome with
      | ok r => exact hfirst _ r hmem (List.mem_map_of_mem hj)
      | error e => exact (h.sound.refused _ e hmem).2.1 (List.mem_map_of_mem hstarted)
    refine ⟨hwaiting, hactive, ?_, fun k => ?_⟩
    · rw [h.counted.running, hactive, List.length_nil]
    · rw [h.counted.perRepo, hactive, ofKey_nil, List.length_nil]

omit [DecidableEq ι] in
private theorem StoreQueue.Kept.fair {c : StoreLimits} {q : StoreQueue ι κ ρ} (h : q.Kept c) : q.Fair c where
  orderly := h.sound.orderly h.served
  counted := h.counted
  settled hmax hidle hended j hj := (h.sound.orderly h.served).settled hmax Nat.one_pos hidle hended hj
  idle hsettled := by
    obtain ⟨hwaiting, hended⟩ := h.sound.idle hsettled
    refine ⟨hwaiting, hended, fun hfreed => ?_⟩
    have hactive : q.active = [] := List.eq_nil_iff_forall_not_mem.mpr fun j hj => hfreed j hj (hended j hj)
    refine ⟨hactive, ?_, fun k => ?_⟩
    · rw [h.counted.activeCount, hactive, List.length_nil]
    · rw [Bool.eq_false_iff, ne_eq, h.counted.busy, hactive]
      simp

/-- In every run of the gate and in every run of the queue of the stores, whatever the keys, the deadlines and the
order in which tasks end: the limits hold, tasks of one key start in the order of the calls, a call is answered once
and never both runs and is refused, and no job that may start is left waiting. -/
theorem schedulers_orderly {c : GateLimits} {g : Gate ι κ ρ} {d : StoreLimits} {q : StoreQueue ι κ ρ}
    (hgate : Runs.Run (Gate.step c) (fun _ _ => True) Gate.empty g)
    (hqueue : Runs.Run (StoreQueue.step d) (fun _ _ => True) StoreQueue.empty q) :
    g.Fair c ∧ q.Fair d := by
  have hg : g.Kept c ∧ g.FreesFirst :=
    hgate.invariant (P := fun g => g.Kept c ∧ g.FreesFirst)
      (fun _ _ _ h _ hstep => ⟨h.1.step hstep, h.2.step h.1 hstep⟩) ⟨Gate.kept_empty, fun _ _ h => by cases h⟩
  have hq : q.Kept d := hqueue.invariant (fun _ _ _ h _ hstep => h.step hstep) StoreQueue.kept_empty
  exact ⟨hg.1.fair hg.2, hq.fair⟩

/-- A gate with one slot: the second call of a repository times out while the first runs, whose task then ends. -/
def timedOutGate : Option (Gate Nat String Nat) :=
  Runs.exec (Gate.step ⟨1, 1, 1⟩) (fun _ _ => True) Gate.empty
    [.schedule ⟨1, "r"⟩ false, .schedule ⟨2, "r"⟩ false, .timer 2, .ends 1 7, .freed 1, .answered 1]

/-- Two stores, the first with a second call that waits until the first task's `finally` has run. -/
def waitedStore : Option (StoreQueue Nat String Nat) :=
  Runs.exec (StoreQueue.step ⟨2, 32⟩) (fun _ _ => True) StoreQueue.empty
    [.run ⟨1, "s"⟩ none, .run ⟨2, "s"⟩ (some false), .run ⟨3, "t"⟩ none, .ends 1 7, .answered 1, .freed 1]

theorem schedulers_orderly_run : ∃ (g : Gate Nat String Nat) (q : StoreQueue Nat String Nat),
    g.settled = [(2, .error .timeout), (1, .ok 7)] ∧ q.started = [⟨1, "s"⟩, ⟨3, "t"⟩, ⟨2, "s"⟩] ∧
      g.Fair ⟨1, 1, 1⟩ ∧ q.Fair ⟨2, 32⟩ :=
  ⟨timedOutGate.get rfl, waitedStore.get rfl, rfl, rfl, schedulers_orderly
    (Runs.run_of_exec (Option.some_get (show timedOutGate.isSome from rfl)).symm)
    (Runs.run_of_exec (Option.some_get (show waitedStore.isSome from rfl)).symm)⟩

/-- A call whose promise has settled, its task's `finally` still to run. -/
def answeredStore : Option (StoreQueue Nat String Nat) :=
  Runs.exec (StoreQueue.step ⟨2, 32⟩) (fun _ _ => True) StoreQueue.empty
    [.run ⟨1, "s"⟩ none, .ends 1 7, .answered 1]

/-- All calls are settled, and the store still counts as busy. -/
theorem storeQueue_counts_answered : ∃ q : StoreQueue Nat String Nat,
    Runs.Run (StoreQueue.step ⟨2, 32⟩) (fun _ _ => True) StoreQueue.empty q ∧
      (∀ j ∈ q.called, j.id ∈ q.settled.map Prod.fst) ∧ q.activeCount = 1 ∧ q.busy "s" = true :=
  ⟨answeredStore.get rfl, Runs.run_of_exec (Option.some_get (show answeredStore.isSome from rfl)).symm, by decide,
      rfl, rfl⟩

end Sightr
