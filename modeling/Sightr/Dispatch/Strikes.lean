import Sightr.Dispatch.Effects

/-!
# Failed sends in a row

The drainer counts failed sends on the state object of a thread, and a pass keeps the object it took at its
start. The count is what the attempts of the thread say it is, those that were skipped aside: that many of the
newest ones all failed. They are attempts of one row as long as no row is sent while another row's failures
count.
-/

namespace Sightr

open Projection

/-! ### Attempts -/

def DeliverResult.isSkipped : DeliverResult → Bool
  | skipped _ => true
  | _ => false

def DeliverResult.isFailed : DeliverResult → Bool
  | failed .. => true
  | _ => false

/-- A pass of the thread handed a row over under the mark. -/
def drainedFor (threadId : String) (mark : Nat) (log : List Obs) : Bool :=
  log.any fun
    | .handed m id (.drained _) _ _ => m = mark && id = threadId
    | _ => false

/-- The deliver attempts of the drainer on the thread that came back: each one's row and result, newest first. -/
def attempts (threadId : String) : List Obs → List (String × DeliverResult)
  | [] => []
  | .reported mark (.drained rowId) result _ :: log =>
    if drainedFor threadId mark log then (rowId, result) :: attempts threadId log else attempts threadId log
  | _ :: log => attempts threadId log

def counted (threadId : String) (log : List Obs) : List (String × DeliverResult) :=
  (attempts threadId log).filter (!·.2.isSkipped)

/-- The newest `n` attempts all failed, and are of one row where `same` asks for it. -/
structure Struck (same : Prop) (threadId : String) (n : Nat) (log : List Obs) : Prop where
  le : n ≤ (counted threadId log).length
  failed : ∀ attempt ∈ (counted threadId log).take n, attempt.2.isFailed = true
  row : same → ∃ rowId, ∀ attempt ∈ (counted threadId log).take n, attempt.1 = rowId

theorem struck_zero (same : Prop) (threadId : String) (log : List Obs) : Struck same threadId 0 log :=
  ⟨Nat.zero_le _, by simp, fun _ => ⟨"", by simp⟩⟩

variable {threadId : String} {n : Nat}

theorem struck_of_counted {same : Prop} {log log' : List Obs}
    (hcounted : counted threadId log' = counted threadId log) (h : Struck same threadId n log) :
    Struck same threadId n log' := by
  refine ⟨hcounted ▸ h.le, fun a ha => h.failed a (hcounted ▸ ha), fun hsame => ?_⟩
  obtain ⟨rowId, hrow⟩ := h.row hsame
  exact ⟨rowId, fun a ha => hrow a (hcounted ▸ ha)⟩

theorem Struck.cons {same : Prop} {threadId rowId : String} {result : DeliverResult} {n : Nat}
    {log log' : List Obs} (h : Struck same threadId n log)
    (hcounted : counted threadId log' = (rowId, result) :: counted threadId log) (hfailed : result.isFailed = true)
    (hrow : same → ∀ attempt ∈ (counted threadId log).take n, attempt.1 = rowId) :
    Struck same threadId (n + 1) log' := by
  refine ⟨?_, fun a ha => ?_, fun hsame => ⟨rowId, fun a ha => ?_⟩⟩
  · rw [hcounted, List.length_cons]
    exact Nat.succ_le_succ h.le
  · rw [hcounted, List.take_succ_cons] at ha
    rcases List.mem_cons.mp ha with rfl | ha
    · exact hfailed
    · exact h.failed a ha
  · rw [hcounted, List.take_succ_cons] at ha
    rcases List.mem_cons.mp ha with rfl | ha
    · rfl
    · exact hrow hsame a ha

/-! ### Holds in the log -/

def Obs.holds (threadId : String) : Obs → Bool
  | .committed event =>
    event.threadId = some threadId &&
      match event.payload with
      | .queueUpdated _ (some .held) _ => true
      | _ => false
  | _ => false

def EventDraft.holds (draft : EventDraft) : Bool :=
  match draft.payload with
  | .queueUpdated _ (some .held) _ => true
  | _ => false

/-! ### The log -/

section

variable {threadId : String} {mark : Nat} {before log : List Obs}

section

variable (h : ∀ obs ∈ before, obs.isDrained = false)
include h

theorem drainedFor_append : drainedFor threadId mark (before ++ log) = drainedFor threadId mark log := by
  have hnone : drainedFor threadId mark before = false := by
    refine List.any_eq_false.mpr fun obs hobs => ?_
    have hquiet := h obs hobs
    cases obs with
    | handed _ _ path => cases path <;> simp_all [Obs.isDrained]
    | _ => simp
  rw [drainedFor, List.any_append, ← drainedFor, ← drainedFor, hnone, Bool.false_or]

theorem attempts_append : attempts threadId (before ++ log) = attempts threadId log := by
  induction before with
  | nil => rfl
  | cons obs before ih =>
    have hrest := ih fun o ho => h o (List.mem_cons_of_mem _ ho)
    have hquiet := h obs List.mem_cons_self
    cases obs with
    | reported mark path result now => cases path <;> simp_all [Obs.isDrained, attempts]
    | _ => exact hrest

theorem counted_append : counted threadId (before ++ log) = counted threadId log := by
  rw [counted, attempts_append h, counted]

end

end

/-! ### The invariant -/

def PassStage.passRef : PassStage → Option Nat
  | .restart _ => none
  | .ready _ _ passRef | .sending _ _ passRef .. => some passRef

def Owns (d : Drainer) (passes : List (String × PassStage)) (threadId : String) (ref : Nat) : Prop :=
  d.states threadId = some ref ∨ ∃ stage, (threadId, stage) ∈ passes ∧ stage.passRef = some ref

/-- The counts are what the attempts say; where `same` asks for it, of one row. -/
structure Strikes (same : Prop) (d : Drainer) (passes : List (String × PassStage)) (log : List Obs) : Prop where
  distinct : d.Distinct
  onePass : (passes.map Prod.fst).Nodup
  lt : ∀ threadId ref, Owns d passes threadId ref → ref < d.nextRef
  owner : ∀ a b ref, Owns d passes a ref → Owns d passes b ref → a = b
  /-- An object that came after its thread's pass counts nothing. -/
  later : ∀ threadId stage ref live, (threadId, stage) ∈ passes → stage.passRef = some ref →
    d.states threadId = some live → live ≠ ref → (d.heap live).failures = 0
  marked : ∀ threadId mark, drainedFor threadId mark log = true → mark < d.nextMark
  marks : ∀ a b mark, drainedFor a mark log = true → drainedFor b mark log = true → a = b
  sent : ∀ threadId thread row passRef ref mark, (threadId, .sending thread row passRef ref mark) ∈ passes →
    drainedFor threadId mark log = true ∧
      (same → ∀ attempt ∈ (counted threadId log).take (d.heap passRef).failures, attempt.1 = row.id)
  struck : ∀ threadId ref, Owns d passes threadId ref → Struck same threadId (d.heap ref).failures log

variable {same : Prop} {d d' : Drainer} {passes : List (String × PassStage)} {log log' : List Obs}

theorem Strikes.rests (h : Strikes same d passes log) (hcounts : d.Counts d') {before : List Obs}
    (hquiet : ∀ obs ∈ before, obs.isDrained = false) : Strikes same d' passes (before ++ log) := by
  have howns {threadId : String} {ref : Nat} (ho : Owns d' passes threadId ref) :
      Owns d passes threadId ref ∨ d'.states threadId = some ref ∧ d.nextRef ≤ ref ∧ ref < d'.nextRef ∧
        (d'.heap ref).failures = 0 := by
    rcases ho with hstate | hpass
    · rcases hcounts.states _ _ hstate with hold | hnew
      · exact .inl (.inl hold)
      · exact .inr ⟨hstate, hnew⟩
    · exact .inl (.inr hpass)
  have hsame {threadId : String} {ref : Nat} (ho : Owns d passes threadId ref) :
      (d'.heap ref).failures = (d.heap ref).failures := hcounts.failures ref (h.lt _ _ ho)
  refine ⟨hcounts.distinct h.distinct, h.onePass, fun threadId ref ho => ?_, fun a b ref ha hb => ?_,
    fun threadId stage ref live hpass href hlive hne => ?_, fun threadId mark hmark => ?_,
    fun a b mark ha hb => ?_, fun threadId thread row passRef ref mark hpass => ?_, fun threadId ref ho => ?_⟩
  · rcases howns ho with hold | ⟨-, -, hlt, -⟩
    · exact (h.lt _ _ hold).trans_le hcounts.refs
    · exact hlt
  · rcases howns ha with ha | ⟨hsa, hge, -⟩ <;> rcases howns hb with hb | ⟨hsb, hge', -⟩
    · exact h.owner a b ref ha hb
    · exact absurd (h.lt _ _ ha) (not_lt.mpr hge')
    · exact absurd (h.lt _ _ hb) (not_lt.mpr hge)
    · exact (hcounts.distinct h.distinct).injective a b ref hsa hsb
  · rcases hcounts.states _ _ hlive with hold | ⟨-, -, hzero⟩
    · rw [hsame (.inl hold)]
      exact h.later threadId stage ref live hpass href hold hne
    · exact hzero
  · rw [drainedFor_append hquiet] at hmark
    exact (h.marked threadId mark hmark).trans_le hcounts.marks
  · rw [drainedFor_append hquiet] at ha hb
    exact h.marks a b mark ha hb
  · rw [drainedFor_append hquiet, counted_append hquiet, hsame (.inr ⟨_, hpass, rfl⟩)]
    exact h.sent threadId thread row passRef ref mark hpass
  · rcases howns ho with hold | ⟨-, -, -, hzero⟩
    · rw [hsame hold]
      exact struck_of_counted (counted_append hquiet) (h.struck threadId ref hold)
    · rw [hzero]
      exact struck_zero ..

variable {passes' : List (String × PassStage)}

theorem Strikes.of_subset (h : Strikes same d passes log) (hsub : passes' ⊆ passes)
    (hone : (passes'.map Prod.fst).Nodup) : Strikes same d passes' log := by
  have howns {threadId : String} {ref : Nat} (ho : Owns d passes' threadId ref) : Owns d passes threadId ref := by
    rcases ho with hstate | ⟨stage, hpass, href⟩
    · exact .inl hstate
    · exact .inr ⟨stage, hsub hpass, href⟩
  exact ⟨h.distinct, hone, fun threadId ref ho => h.lt _ _ (howns ho),
    fun a b ref ha hb => h.owner a b ref (howns ha) (howns hb),
    fun threadId stage ref live hpass => h.later threadId stage ref live (hsub hpass), h.marked, h.marks,
    fun threadId thread row passRef ref mark hpass => h.sent threadId thread row passRef ref mark (hsub hpass),
    fun threadId ref ho => h.struck threadId ref (howns ho)⟩

theorem Strikes.perm (h : Strikes same d passes log) (hperm : passes'.Perm passes) : Strikes same d passes' log :=
  h.of_subset hperm.subset ((hperm.map Prod.fst).nodup_iff.mpr h.onePass)

theorem Strikes.tail {pass : String × PassStage} (h : Strikes same d (pass :: passes) log) :
    Strikes same d passes log :=
  h.of_subset (List.subset_cons_self _ _) (List.nodup_cons.mp h.onePass).2

variable {stage : PassStage}

theorem Strikes.notMem (h : Strikes same d ((threadId, stage) :: passes) log) (stage' : PassStage) :
    (threadId, stage') ∉ passes :=
  fun hmem => (List.nodup_cons.mp h.onePass).1 (List.mem_map.mpr ⟨_, hmem, rfl⟩)

theorem Strikes.begins (h : Strikes same d passes log) (hnone : ∀ stage, (threadId, stage) ∉ passes)
    (href : ∀ ref, stage.passRef = some ref → d.states threadId = some ref)
    (hsending : ∀ thread row passRef ref mark, stage ≠ .sending thread row passRef ref mark) :
    Strikes same d ((threadId, stage) :: passes) log := by
  have howns {id : String} {ref : Nat} (ho : Owns d ((threadId, stage) :: passes) id ref) : Owns d passes id ref := by
    rcases ho with hstate | ⟨stage', hpass, href'⟩
    · exact .inl hstate
    · rcases List.mem_cons.mp hpass with heq | hpass
      · obtain ⟨rfl, rfl⟩ := Prod.mk.inj heq
        exact .inl (href ref href')
      · exact .inr ⟨stage', hpass, href'⟩
  refine ⟨h.distinct, ?_, fun id ref ho => h.lt _ _ (howns ho), fun a b ref ha hb => h.owner a b ref (howns ha)
      (howns hb),
    fun id stage' ref live hpass href' hlive hne => ?_, h.marked, h.marks,
    fun id thread row passRef ref mark hpass => ?_, fun id ref ho => h.struck id ref (howns ho)⟩
  · refine List.nodup_cons.mpr ⟨fun hmem => ?_, h.onePass⟩
    obtain ⟨⟨id, stage'⟩, hpass, rfl⟩ := List.mem_map.mp hmem
    exact hnone stage' hpass
  · rcases List.mem_cons.mp hpass with heq | hpass
    · obtain ⟨rfl, rfl⟩ := Prod.mk.inj heq
      rw [href ref href'] at hlive
      exact absurd (Option.some.inj hlive).symm hne
    · exact h.later id stage' ref live hpass href' hlive hne
  · rcases List.mem_cons.mp hpass with heq | hpass
    · exact absurd (Prod.mk.inj heq).2.symm (hsending _ _ _ _ _)
    · exact h.sent id thread row passRef ref mark hpass

variable {ref : Nat}

theorem Strikes.handed {passRef mark : Nat} {thread : ServerThread} {row : QueuedMessage} {db : Db} {now : Int}
    (h : Strikes same d ((threadId, stage) :: passes) log) (href : stage.passRef = some passRef)
    (hcounts : d.Counts d') (hnew : d.nextMark ≤ mark) (hlt : mark < d'.nextMark)
    (hrow : same → ∀ attempt ∈ (counted threadId log).take (d.heap passRef).failures, attempt.1 = row.id) :
    Strikes same d' ((threadId, .sending thread row passRef ref mark) :: passes)
      (.handed mark threadId (.drained row.id) db now :: log) := by
  have hmoved : Strikes same d' ((threadId, stage) :: passes) log :=
    h.rests hcounts (show ∀ obs ∈ ([] : List Obs), obs.isDrained = false by simp)
  have howns {id : String} {r : Nat} (ho : Owns d' ((threadId,
      .sending thread row passRef ref mark) :: passes) id r) :
      Owns d' ((threadId, stage) :: passes) id r := by
    rcases ho with hstate | ⟨stage', hpass, href'⟩
    · exact .inl hstate
    · rcases List.mem_cons.mp hpass with heq | hpass
      · obtain ⟨rfl, rfl⟩ := Prod.mk.inj heq
        exact .inr ⟨stage, List.mem_cons_self, href.trans href'⟩
      · exact .inr ⟨stage', List.mem_cons_of_mem _ hpass, href'⟩
  have hfor (id : String) (m : Nat) : drainedFor id m (.handed mark threadId (.drained row.id) db now :: log) =
        ((mark = m && threadId = id) || drainedFor id m log) := by
    simp [drainedFor]
  have hunused (id : String) : drainedFor id mark log = false := by
    by_contra hmark
    exact absurd (h.marked id mark (by simpa using hmark)) (not_lt.mpr hnew)
  have hcounted (id : String) :
      counted id (.handed mark threadId (.drained row.id) db now :: log) = counted id log := rfl
  refine ⟨hmoved.distinct, hmoved.onePass, fun id r ho => hmoved.lt _ _ (howns ho),
    fun a b r ha hb => hmoved.owner a b r (howns ha) (howns hb),
    fun id stage' r live hpass href' hlive hne => ?_, fun id m hm => ?_, fun a b m ha hb => ?_,
    fun id thread' row' passRef' ref' m hpass => ?_, fun id r ho => ?_⟩
  · rcases List.mem_cons.mp hpass with heq | hpass
    · obtain ⟨rfl, rfl⟩ := Prod.mk.inj heq
      exact hmoved.later _ stage r live List.mem_cons_self (href.trans href') hlive hne
    · exact hmoved.later id stage' r live (List.mem_cons_of_mem _ hpass) href' hlive hne
  · rw [hfor] at hm
    rcases Bool.or_eq_true_iff.mp hm with heq | hold
    · have hm' : mark = m := by simpa using (Bool.and_eq_true_iff.mp heq).1
      exact hm' ▸ hlt
    · exact hmoved.marked id m hold
  · rw [hfor] at ha hb
    rcases Bool.or_eq_true_iff.mp ha with ha | ha <;> rcases Bool.or_eq_true_iff.mp hb with hb | hb
    · have ha' : mark = m ∧ threadId = a := by simpa using ha
      have hb' : mark = m ∧ threadId = b := by simpa using hb
      exact ha'.2.symm.trans hb'.2
    · have ha' : mark = m ∧ threadId = a := by simpa using ha
      rw [← ha'.1, hunused] at hb
      cases hb
    · have hb' : mark = m ∧ threadId = b := by simpa using hb
      rw [← hb'.1, hunused] at ha
      cases ha
    · exact hmoved.marks a b m ha hb
  · rw [hfor, hcounted]
    rcases List.mem_cons.mp hpass with heq | hpass
    · obtain ⟨rfl, hstage⟩ := Prod.mk.inj heq
      obtain ⟨rfl, rfl, rfl, rfl, rfl⟩ := PassStage.sending.inj hstage
      refine ⟨by simp, ?_⟩
      rw [hcounts.failures _ (h.lt _ _ (.inr ⟨stage, List.mem_cons_self, href⟩))]
      exact hrow
    · obtain ⟨hdrained, hrows⟩ :=
        hmoved.sent id thread' row' passRef' ref' m (List.mem_cons_of_mem _ hpass)
      exact ⟨by simp [hdrained], hrows⟩
  · exact struck_of_counted (hcounted id) (hmoved.struck id r (howns ho))

theorem Strikes.recount (h : Strikes same d passes log) (hown : Owns d passes threadId ref) (hsub : passes' ⊆ passes)
    (hone : (passes'.map Prod.fst).Nodup) (hnone : ∀ stage, (threadId, stage) ∉ passes')
    (hlive : ∀ live, d.states threadId = some live → live ≠ ref → (d.heap live).failures = 0)
    (hfor : ∀ id mark, drainedFor id mark log' = drainedFor id mark log)
    (hothers : ∀ id, id ≠ threadId → counted id log' = counted id log) (hstruck : Struck same threadId n log') :
    Strikes same (d.modify ref fun s => { s with failures := n }) passes' log' := by
  have howns {id : String} {r : Nat} (ho : Owns d passes' id r) : Owns d passes id r := by
    rcases ho with hstate | ⟨stage, hpass, href⟩
    · exact .inl hstate
    · exact .inr ⟨stage, hsub hpass, href⟩
  have hheap (r : Nat) : ((d.modify ref fun s => { s with failures := n }).heap r).failures =
      if r = ref then n else (d.heap r).failures := by
    simp only [Drainer.modify, Function.update_apply]
    split_ifs <;> rfl
  -- The object is no other thread's.
  have hother {id : String} {r : Nat} (ho : Owns d passes id r) (hne : id ≠ threadId) : r ≠ ref := by
    rintro rfl
    exact hne (h.owner _ _ _ ho hown)
  refine ⟨⟨h.distinct.injective, h.distinct.lt⟩, hone, fun id r ho => h.lt id r (howns ho),
    fun a b r ha hb => h.owner a b r (howns ha) (howns hb),
    fun id stage r live hpass href hstate hne => ?_, fun id mark hmark => ?_, fun a b mark ha hb => ?_,
    fun id thread row passRef ref' mark hpass => ?_, fun id r ho => ?_⟩
  · have hid : id ≠ threadId := by
      rintro rfl
      exact hnone stage hpass
    rw [hheap, if_neg (hother (.inl hstate) hid)]
    exact h.later id stage r live (hsub hpass) href hstate hne
  · exact h.marked id mark (hfor id mark ▸ hmark)
  · exact h.marks a b mark (hfor a mark ▸ ha) (hfor b mark ▸ hb)
  · have hid : id ≠ threadId := by
      rintro rfl
      exact hnone _ hpass
    rw [hfor, hothers id hid, hheap, if_neg (hother (.inr ⟨_, hsub hpass, rfl⟩) hid)]
    exact h.sent id thread row passRef ref' mark (hsub hpass)
  · rw [hheap]
    by_cases hid : id = threadId
    · subst hid
      split_ifs with hr
      · exact hstruck
      · rcases ho with hstate | ⟨stage, hpass, -⟩
        · rw [hlive r hstate hr]
          exact struck_zero ..
        · exact absurd hpass (hnone stage)
    · rw [if_neg (hother (howns ho) hid)]
      exact struck_of_counted (hothers id hid) (h.struck id r (howns ho))

/-! ### Passes -/

namespace World

open Drainer

/-- The counts of the dispatcher are what its log says. -/
def Tallies (same : Prop) (w : World) : Prop := Strikes same w.drainer w.passStages w.log

def TalliesWith (same : Prop) (threadId : String) (stage : PassStage) (w : World) : Prop :=
  Strikes same w.drainer ((threadId, stage) :: w.passStages) w.log

/-- A pass sends a row while failures of another row count. -/
def strikesAnother (w : World) : Action → Bool
  | .resume i (.composer (some true)) _ =>
    match w.tasks[i]? with
    | some (.pass threadId (.ready _ row passRef)) =>
      w.passTakes threadId row.id && decide (0 < (w.drainer.heap passRef).failures) &&
        decide ((counted threadId w.log).head?.map Prod.fst ≠ some row.id)
    | _ => false
  | _ => false

variable {w w' : World} {threadId : String} {stage : PassStage}

theorem Tallies.rests (h : w.Tallies same) (hrests : Rests w w') : w'.Tallies same := by
  obtain ⟨before, hlog, hquiet⟩ := hrests.log
  rw [Tallies, hrests.passes, hlog]
  exact Strikes.rests h hrests.counts hquiet

theorem TalliesWith.rests (h : w.TalliesWith same threadId stage) (hrests : Rests w w') :
    w'.TalliesWith same threadId stage := by
  obtain ⟨before, hlog, hquiet⟩ := hrests.log
  rw [TalliesWith, hrests.passes, hlog]
  exact Strikes.rests h hrests.counts hquiet

theorem TalliesWith.ended (h : w.TalliesWith same threadId stage) : w.Tallies same := Strikes.tail h

theorem Tallies.take {i : Nat} (h : w.Tallies same) (newId : String)
    (htask : w.tasks[i]? = some (.pass threadId stage)) :
    ((w.take i).issue newId).TalliesWith same threadId stage := by
  obtain ⟨hlt, heq⟩ := List.getElem?_eq_some_iff.mp htask
  refine Strikes.perm h ?_
  change ((threadId, stage) :: (w.tasks.eraseIdx i).filterMap Task.pass?).Perm (w.tasks.filterMap Task.pass?)
  have hperm := (List.getElem_cons_eraseIdx_perm hlt).filterMap Task.pass?
  rwa [heq, List.filterMap_cons_some (show Task.pass? (.pass threadId stage) = some (threadId, stage) from rfl)]
    at hperm

theorem tallies_spawn (h : w.TalliesWith same threadId stage) : (w.spawn (.pass threadId stage)).Tallies same := by
  refine Strikes.perm h ?_
  rw [passStages, spawn, List.filterMap_append]
  exact (List.perm_append_singleton _ _).trans (List.Perm.refl _)

theorem tallies_passStart (h : w.Tallies same) (hnone : w.tasks.any (·.isPassOf threadId) = false) :
    (w.passStart threadId).Tallies same := by
  have hno (stage : PassStage) : (threadId, stage) ∉ w.passStages := by
    intro hmem
    obtain ⟨task, htask, hpass⟩ := List.mem_filterMap.mp hmem
    cases task <;> cases hpass
    exact absurd (List.any_eq_false.mp hnone _ htask) (by simp [Task.isPassOf])
  have hstate := states_stateOf w.drainer threadId
  have hmoved : ({ w with drainer := (w.drainer.stateOf threadId).1 } : World).Tallies same :=
    h.rests ⟨counts_stateOf .., rfl, [], rfl, by simp⟩
  unfold passStart
  split
  · exact h
  · split_ifs
    · exact h
    · dsimp only
      split_ifs
      · exact hmoved
      · exact hmoved
      · exact hmoved
      · exact tallies_spawn (Strikes.begins hmoved hno (fun _ href => by cases href) (by simp))
      · split
        · refine Strikes.recount hmoved (.inl hstate) (List.Subset.refl _) hmoved.onePass hno
            (fun live hlive hne => ?_) (fun _ _ => rfl) (fun _ _ => rfl) (struck_zero ..)
          exact absurd (Option.some.inj (hlive.symm.trans hstate)) hne
        · refine tallies_spawn (Strikes.begins hmoved hno (fun ref href => ?_) (by simp))
          cases href
          exact hstate

variable {thread : ServerThread} {row : QueuedMessage} {passRef : Nat}

theorem tallies_passReady {ready : Option Bool} (h : w.TalliesWith same threadId (.ready thread row passRef))
    (hrow : same → ready = some true → w.passTakes threadId row.id = true →
      ∀ attempt ∈ (counted threadId w.log).take (w.drainer.heap passRef).failures, attempt.1 = row.id) :
    (w.passReady threadId row passRef ready).Tallies same := by
  unfold passReady
  split
  · exact h.ended
  · exact h.ended.rests (Effects.rests (show Effects none none (fun _ => False) _ _ from effects_backOff _))
  · split
    · exact h.ended
    · rename_i fresh hfresh
      dsimp only
      split
      · exact h.ended
      · split
        · exact h.ended
        · rename_i still hstill
          split
          · exact h.ended
          · split
            · exact h.ended.rests (Effects.rests (show Effects none none (fun _ => False) _ _ from effects_schedule _))
            · split
              · exact h.ended
              · split
                · exact h.ended
                · rename_i m happ
                  have hid : still.id = row.id := by simpa using List.find?_some hstill
                  have htakes : w.passTakes threadId row.id = true := by
                    simp_all [passTakes]
                  obtain ⟨before, hlog, hquiet⟩ := (rests_append happ).log
                  have hm : m.TalliesWith same threadId (.ready thread row passRef) := h.rests (rests_append happ)
                  have hpassRef : passRef < w.drainer.nextRef :=
                    h.lt threadId passRef (.inr ⟨_, List.mem_cons_self, rfl⟩)
                  have hbegin := counts_beginSend m.drainer threadId
                  have hmark : (m.drainer.beginSend threadId).2.2 < (m.drainer.beginSend threadId).1.nextMark :=
                    Nat.lt_succ_self _
                  have hsent : Strikes same (m.drainer.beginSend threadId).1
                      ((threadId, .sending fresh still passRef (m.drainer.beginSend threadId).2.1
                        (m.drainer.beginSend threadId).2.2) :: m.passStages)
                      (.handed (m.drainer.beginSend threadId).2.2 threadId (.drained still.id) m.db m.now :: m.log) :=
                    Strikes.handed hm rfl hbegin ?_ hmark fun hsame attempt hattempt => ?_
                  · rw [hid] at hsent
                    exact tallies_spawn hsent
                  · exact ((m.drainer.counts_clearAwaiting threadId).trans
                      ((m.drainer.clearAwaiting threadId).counts_stateOf threadId)).marks
                  · rw [hlog, counted_append hquiet, (rests_append happ).counts.failures passRef hpassRef] at hattempt
                    exact (hrow hsame rfl htakes attempt hattempt).trans hid.symm

theorem modify_failures_self (d : Drainer) (ref : Nat) :
    d.modify ref (fun s => { s with failures := (d.heap ref).failures }) = d := by
  have hheap : Function.update d.heap ref { d.heap ref with failures := (d.heap ref).failures } = d.heap :=
    Function.update_eq_self ref d.heap
  show ({ d with heap := _ } : Drainer) = d
  rw [hheap]

variable {ref mark : Nat}

theorem counted_sendBack (h : w.TalliesWith same threadId (.sending thread row passRef ref mark))
    (result : DeliverResult) (id : String) :
    counted id (w.sendBack threadId (.drained row.id) ref mark result).log =
      if id = threadId ∧ result.isSkipped = false then (row.id, result) :: counted id w.log
      else counted id w.log := by
  have hmine := (h.sent threadId thread row passRef ref mark List.mem_cons_self).1
  change (attempts id (.reported mark (.drained row.id) result w.now :: w.log)).filter (!·.2.isSkipped) = _
  rw [attempts]
  by_cases hid : id = threadId
  · subst hid
    rw [if_pos hmine, List.filter_cons]
    cases hskipped : result.isSkipped <;> simp [counted]
  · have hother : drainedFor id mark w.log = false := by
      by_contra hfor
      exact hid (h.marks id threadId mark (by simpa using hfor) hmine)
    rw [hother, if_neg (by simp), if_neg fun hboth => hid hboth.1]
    rfl

variable {n : Nat} {result : DeliverResult}

theorem tallies_setFailures (h : w.TalliesWith same threadId (.sending thread row passRef ref mark))
    (hstruck : Struck same threadId n (w.sendBack threadId (.drained row.id) ref mark result).log) :
    ((w.sendBack threadId (.drained row.id) ref mark result).setFailures passRef n).Tallies same := by
  have hback : Strikes same (w.sendBack threadId (.drained row.id) ref mark result).drainer
      ((threadId, .sending thread row passRef ref mark) :: w.passStages) w.log :=
    Strikes.rests h (counts_finishSend ..) (show ∀ obs ∈ ([] : List Obs), obs.isDrained = false by simp)
  refine Strikes.recount hback (.inr ⟨_, List.mem_cons_self, rfl⟩) (List.subset_cons_self _ _)
    (List.nodup_cons.mp hback.onePass).2 hback.notMem
    (fun live hlive hne => hback.later threadId _ passRef live List.mem_cons_self rfl hlive hne)
    (fun id m => rfl) (fun id hid => ?_) hstruck
  exact (counted_sendBack h result id).trans (if_neg fun hboth => hid hboth.1)

variable {next : World → World}

theorem rests_putBack (threadId : String) (row : QueuedMessage) (h : ∀ m, Rests m (next m)) :
    Rests w (w.putBack threadId row next) := by
  unfold putBack
  split
  · exact h w
  · split
    · exact .refl w
    · rename_i happ
      exact (rests_append happ).trans (h _)

theorem rests_backOff (w : World) (threadId : String) : Rests w (w.backOff threadId) :=
  Effects.rests (show Effects none none (fun _ => False) _ _ from effects_backOff _)

theorem tallies_passSent (h : w.TalliesWith same threadId (.sending thread row passRef ref mark)) :
    (w.passSent threadId row passRef ref mark result).Tallies same := by
  have hset {n : Nat} (hstruck : Struck same threadId n (w.sendBack threadId
      (.drained row.id) ref mark result).log) :=
    tallies_setFailures h hstruck
  have hcount : ((w.sendBack threadId (.drained row.id) ref mark result).drainer.heap passRef).failures =
      (w.drainer.heap passRef).failures :=
    (counts_finishSend ..).failures passRef (h.lt threadId passRef (.inr ⟨_, List.mem_cons_self, rfl⟩))
  have hcounted := counted_sendBack h result threadId
  have hstruck := h.struck threadId passRef (.inr ⟨_, List.mem_cons_self, rfl⟩)
  unfold passSent
  dsimp only
  split
  · exact (hset (struck_zero ..)).rests (rests_getD fun w' happ => rests_append happ)
  · exact (hset (struck_zero ..)).rests (rests_getD fun w' happ => rests_append happ)
  · rename_i reason
    -- A skipped attempt leaves the count and the attempts that count.
    rw [if_neg (by simp [DeliverResult.isSkipped])] at hcounted
    have hsame := hset (struck_of_counted hcounted hstruck)
    rw [setFailures, ← hcount, modify_failures_self] at hsame
    refine hsame.rests (rests_putBack _ _ fun m => ?_)
    split_ifs
    · exact rests_backOff ..
    · exact .refl m
  · rename_i reason message
    rw [if_pos ⟨rfl, rfl⟩] at hcounted
    split_ifs
    · split
      · exact hset (struck_zero ..)
      · exact (hset (struck_zero ..)).rests (rests_getD fun w' happ => rests_append happ)
    · refine (hset ?_).rests (rests_putBack _ _ fun m => rests_backOff ..)
      rw [hcount]
      exact hstruck.cons hcounted rfl (h.sent threadId thread row passRef ref mark List.mem_cons_self).2

/-! ### Runs -/

theorem tallies_passOn {newId : String} {answer : Answer} (h : w.TalliesWith same threadId stage)
    (hrow : same → ∀ thread row passRef, stage = .ready thread row passRef → answer = .composer (some true) →
      w.passTakes threadId row.id = true →
        ∀ attempt ∈ (counted threadId w.log).take (w.drainer.heap passRef).failures, attempt.1 = row.id)
    (hgo : w.passOn threadId newId stage answer = some w') : w'.Tallies same := by
  unfold passOn at hgo
  split at hgo <;> cases hgo
  · exact h.ended.rests (Effects.rests (show Effects none none (fun _ => False) _ _ from effects_passRestart ..))
  · exact h.ended
  · exact tallies_passReady h fun hsame hready => hrow hsame _ _ _ rfl (by rw [hready])
  · exact h.ended
  · exact tallies_passSent h
  · exact tallies_passSent h

variable {a : Action}

theorem tallies_step (h : w.Tallies same) (hready : ∀ task ∈ w.tasks, task.readRows = [])
    (hC : same → w.strikesAnother a = false) (hstep : w.step a = some w') : w'.Tallies same := by
  by_cases hpass : w.passes a = false
  · have heffects : Effects (w.commandOf a) a.newId (fun _ => True) w w' :=
      effects_step hpass (.inl hready) (fun _ _ => trivial) hstep
    exact h.rests heffects.rests
  unfold step at hstep
  cases a with
  | resume i answer newId =>
    dsimp only at hstep
    split_ifs at hstep
    split at hstep
    · cases hstep
    · rename_i task htask
      cases task with
      | pass threadId stage =>
        refine tallies_passOn (h.take newId htask) (fun hsame thread row passRef hstage hanswer htakes => ?_) hstep
        subst hstage hanswer
        have hstruck := h.struck threadId passRef
          (.inr ⟨_, List.mem_filterMap.mpr ⟨_, List.mem_of_getElem? htask, rfl⟩, rfl⟩)
        obtain ⟨rowId, hrows⟩ := hstruck.row hsame
        -- Where failures count, the newest attempt is the row's.
        rcases Nat.eq_zero_or_pos (w.drainer.heap passRef).failures with hzero | hpos
        · intro attempt hattempt
          change attempt ∈ List.take (w.drainer.heap passRef).failures _ at hattempt
          rw [hzero] at hattempt
          cases hattempt
        · have htakes' : w.passTakes threadId row.id = true := htakes
          have hhead : (counted threadId w.log).head?.map Prod.fst = some row.id := by
            simpa [strikesAnother, htask, htakes', hpos] using hC hsame
          obtain ⟨first, hfirst, hid⟩ := Option.map_eq_some_iff.mp hhead
          have hmem : first ∈ (counted threadId w.log).take (w.drainer.heap passRef).failures := by
            refine List.mem_of_mem_head? ?_
            rw [List.head?_take, if_neg hpos.ne', hfirst]
            rfl
          intro attempt hattempt
          exact (hrows attempt hattempt).trans ((hrows first hmem).symm.trans hid)
      | _ => simp [passes, htask, Task.pass?] at hpass
  | startPass threadId =>
    dsimp only at hstep
    split_ifs at hstep with hdue
    cases hstep
    have hbegin : ({ w with drainer := w.drainer.beginPass threadId } : World).Tallies same :=
      h.rests ⟨counts_beginPass .., rfl, [], rfl, by simp⟩
    refine tallies_passStart hbegin ?_
    simpa using (Bool.and_eq_true_iff.mp hdue).2
  | _ => simp [passes] at hpass

theorem tallies_of_booted {db : Db} {now : Int} (h : Booted db now w) : w.Tallies same := by
  have hpasses : w.passStages = [] := by
    refine List.filterMap_eq_nil_iff.mpr fun task htask => ?_
    obtain ⟨id, rfl⟩ := h.tasks task htask
    rfl
  have hnone (id : String) (mark : Nat) : drainedFor id mark w.log = false := by
    refine List.any_eq_false.mpr fun obs hobs => ?_
    obtain ⟨event, rfl, -⟩ := h.log obs hobs
    simp
  have howns {id : String} {ref : Nat} (ho : Owns w.drainer w.passStages id ref) : False := by
    rw [hpasses, h.drainer] at ho
    rcases ho with hstate | ⟨_, hpass, _⟩
    · cases hstate
    · cases hpass
  rw [Tallies]
  refine ⟨⟨?_, ?_⟩, by simp [hpasses], fun id ref ho => (howns ho).elim, fun a b ref ha => (howns ha).elim,
    fun id stage ref live hpass => ?_, fun id mark hmark => ?_, fun a b mark ha => ?_,
    fun id thread row passRef ref mark hpass => ?_, fun id ref ho => (howns ho).elim⟩
  · rw [h.drainer]
    intro a b ref ha
    cases ha
  · rw [h.drainer]
    intro a ref ha
    cases ha
  · rw [hpasses] at hpass
    cases hpass
  · rw [hnone] at hmark
    cases hmark
  · rw [hnone] at ha
    cases ha
  · rw [hpasses] at hpass
    cases hpass

/-- Along every run the counts are what the attempts say; of one row, where no step sends a row while
another's failures count. -/
theorem tallies_of_reaches {C : World → Action → Prop} (hC : same → ∀ w a, C w a → w.strikesAnother a = false)
    (h : Reaches C w) : w.Tallies same := by
  obtain ⟨batches, db, written, now, -, hrun⟩ := h
  have hbooted := booted_boot db now
  induction hrun with
  | refl => exact tallies_of_booted hbooted
  | next hm hmeets hstep ih =>
    have hids := ids_of_run hm (Turn.ids_of_booted hbooted)
    exact tallies_step ih (fun task htask => hids.ready task (by simpa using htask))
      (fun hsame => hC hsame _ _ hmeets) hstep

/-! ### Holds -/

/-- The thread and the row of the pass that goes on as its send comes back. -/
def passSends (w : World) : Action → Option (String × String)
  | .resume i _ _ =>
    match w.tasks[i]? with
    | some (.pass threadId (.sending _ row ..)) => some (threadId, row.id)
    | _ => none
  | _ => none

/-- A pass of the thread, as its send of the row comes back, commits a `held` change. -/
def HoldsFailed (w : World) (a : Action) (w' : World) (threadId rowId : String) : Prop :=
  w.step a = some w' ∧ w.passSends a = some (threadId, rowId) ∧
    w.log.countP (·.holds threadId) < w'.log.countP (·.holds threadId)

theorem holds_of_isDispatchNotice {draft : EventDraft} (h : isDispatchNotice draft = true) : draft.holds = false := by
  cases hpay : draft.payload <;> simp_all [isDispatchNotice, EventDraft.holds, Payload.type]

variable {drafts : List EventDraft}

section

variable (hdrafts : ∀ draft ∈ drafts, draft.holds = false)
include hdrafts

theorem countP_holds_append {options : AppendOptions} (h : w.append drafts options = some w') :
    w'.log.countP (·.holds threadId) = w.log.countP (·.holds threadId) := by
  obtain ⟨events, happ, hheard⟩ := heard_append h
  have hnone : (events.map Obs.committed).reverse.countP (·.holds threadId) = 0 := by
    refine List.countP_eq_zero.mpr fun obs hobs => ?_
    obtain ⟨event, hevent, rfl⟩ := List.mem_map.mp (List.mem_reverse.mp hobs)
    obtain ⟨draft, hdraft, htype, -, hpayload⟩ := Db.exists_draft_of_written happ event hevent
    by_cases hitem : draft.payload.type = .turnItemUpdated
    · rw [hitem] at htype
      cases hpay : event.payload <;> simp [hpay, Payload.type] at htype
      simp [Obs.holds, hpay]
    · have hheld := hdrafts draft hdraft
      rw [EventDraft.holds, ← hpayload hitem] at hheld
      simp [Obs.holds, hheld]
  rw [hheard.log, List.countP_append, hnone, Nat.zero_add]

theorem countP_holds_getD :
    ((w.append drafts).getD w).log.countP (·.holds threadId) = w.log.countP (·.holds threadId) := by
  cases h : w.append drafts with
  | none => rfl
  | some w' => exact countP_holds_append hdrafts h

end

theorem countP_holds_putBack (row : QueuedMessage) (h : ∀ m, (next m).log = m.log) :
    (w.putBack threadId row next).log.countP (·.holds threadId) = w.log.countP (·.holds threadId) := by
  unfold putBack
  split
  · rw [h]
  · split
    · rfl
    · rename_i happ
      rw [h]
      exact countP_holds_append (by simp [queueEvent, EventDraft.holds]) happ

/-- The newest attempts that count, as many as hold a row, all failed, and the last of them is the row's. -/
structure HeldAfter (same : Prop) (threadId rowId : String) (log : List Obs) : Prop where
  struck : Struck False threadId MAX_DRAIN_FAILURES log
  last : (counted threadId log).head?.map Prod.fst = some rowId
  row : same → ∀ attempt ∈ (counted threadId log).take MAX_DRAIN_FAILURES, attempt.1 = rowId

variable {rowId : String}

theorem HeldAfter.rests (h : HeldAfter same threadId rowId w.log) (hrests : Rests w w') :
    HeldAfter same threadId rowId w'.log := by
  obtain ⟨before, hlog, hquiet⟩ := hrests.log
  have hcounted : counted threadId w'.log = counted threadId w.log := by rw [hlog, counted_append hquiet]
  exact ⟨struck_of_counted hcounted h.struck, hcounted ▸ h.last, hcounted ▸ h.row⟩

theorem heldAfter_of_struck {log log' : List Obs} (hstruck : Struck same threadId (n + 1) log')
    (hcounted : counted threadId log' = (rowId, result) :: counted threadId log) (hmax : MAX_DRAIN_FAILURES ≤ n + 1) :
    HeldAfter same threadId rowId log' := by
  have htake {attempt : String × DeliverResult} (h : attempt ∈ (counted threadId log').take MAX_DRAIN_FAILURES) :
      attempt ∈ (counted threadId log').take (n + 1) := List.take_subset_take_left _ hmax h
  refine ⟨⟨hmax.trans hstruck.le, fun a ha => hstruck.failed a (htake ha), False.elim⟩, by rw [hcounted]; rfl,
    fun hsame a ha => ?_⟩
  obtain ⟨rowId', hrows⟩ := hstruck.row hsame
  have hfirst : (rowId, result) ∈ (counted threadId log').take (n + 1) := by simp [hcounted]
  exact (hrows a (htake ha)).trans (hrows _ hfirst).symm

theorem heldAfter_passSent (hnotices : Notices result)
    (h : w.TalliesWith same threadId (.sending thread row passRef ref mark))
    (hheld : w.log.countP (·.holds threadId) < (w.passSent threadId row passRef ref mark result).log.countP
      (·.holds threadId)) :
    HeldAfter same threadId row.id (w.passSent threadId row passRef ref mark result).log := by
  have hback : (w.sendBack threadId (.drained row.id) ref mark result).log.countP (·.holds threadId) =
      w.log.countP (·.holds threadId) := List.countP_cons_of_neg (by simp [Obs.holds])
  have hcount : ((w.sendBack threadId (.drained row.id) ref mark result).drainer.heap passRef).failures =
      (w.drainer.heap passRef).failures :=
    (counts_finishSend ..).failures passRef (h.lt threadId passRef (.inr ⟨_, List.mem_cons_self, rfl⟩))
  have hcounted := counted_sendBack h result threadId
  have hstruck := h.struck threadId passRef (.inr ⟨_, List.mem_cons_self, rfl⟩)
  have hrow := (h.sent threadId thread row passRef ref mark List.mem_cons_self).2
  unfold passSent at hheld ⊢
  dsimp only at hheld ⊢
  split at hheld
  · refine absurd hheld (not_lt.mpr (le_of_eq ?_))
    refine (countP_holds_getD fun draft hdraft => ?_).trans hback
    rcases List.mem_append.mp hdraft with hdraft | hdraft
    · exact holds_of_isDispatchNotice (hnotices _ rfl draft hdraft)
    · obtain rfl := List.mem_singleton.mp hdraft
      rfl
  · refine absurd hheld (not_lt.mpr (le_of_eq ?_))
    exact (countP_holds_getD (by simp [queueEvent, dispatchFailed, EventDraft.holds])).trans hback
  · rename_i reason
    refine absurd hheld (not_lt.mpr (le_of_eq ?_))
    refine (countP_holds_putBack _ fun m => ?_).trans hback
    split_ifs <;> rfl
  · rename_i reason message
    rw [if_pos ⟨rfl, rfl⟩] at hcounted
    split_ifs at hheld ⊢ with hmax
    · cases hrows : withRow _ threadId row.id _ with
      | none =>
        rw [hrows] at hheld
        exact absurd hheld (not_lt.mpr hback.le)
      | some rows =>
        rw [hcount] at hmax
        exact (heldAfter_of_struck (hstruck.cons hcounted rfl hrow) hcounted hmax).rests
          (w := (w.sendBack threadId (.drained row.id) ref mark (.failed reason message)).setFailures passRef 0)
          (rests_getD fun w' happ => rests_append happ)
    · refine absurd hheld (not_lt.mpr (le_of_eq ?_))
      exact (countP_holds_putBack _ (show ∀ m : World, (m.backOff threadId).log =
      m.log from fun m => rfl)).trans hback

private theorem heldAfter_of_holdsFailed (h : w.Tallies same) (hheld : w.HoldsFailed a w' threadId rowId) :
    HeldAfter same threadId rowId w'.log := by
  obtain ⟨hstep, hsends, hmore⟩ := hheld
  unfold passSends at hsends
  split at hsends
  · rename_i i answer newId
    split at hsends <;> cases hsends
    rename_i thread row passRef ref mark htask
    have htake := h.take newId htask
    simp only [step, htask] at hstep
    split_ifs at hstep
    unfold goOn passOn at hstep
    cases answer <;> cases hstep
    · exact heldAfter_passSent (notices_deliverResult _ _ _ _ _ _ _) htake hmore
    · exact heldAfter_passSent (by simp [Notices]) htake hmore
  · cases hsends

/-- Whenever a pass holds its row because a send failed, as many attempts on the thread as hold a row have
failed in a row, those that were skipped aside, and the last was the row's; in a run that sends no row while
another's failures count, all of them were attempts of that row. -/
theorem held_after_failures {C : World → Action → Prop} {a : Action} {rowId : String} (h : Reaches C w)
    (hheld : w.HoldsFailed a w' threadId rowId) :
    HeldAfter (∀ w a, C w a → w.strikesAnother a = false) threadId rowId w'.log :=
  heldAfter_of_holdsFailed (tallies_of_reaches id h) hheld

/-- A message that is queued behind a working run, which then ends: its first pass begins and sends it. -/
def firstSend : List Action :=
  [.command (.messageDispatch "t1" "go on" [] .queue) (testContext "c1") "q1", statusBatch .idle 2000,
    .startPass "t1", .resume 2 (.composer (some true)) "n1"]

/-- The send comes back with `answer`, and is made again. -/
def sendAgain (answer : Answer) (newId newId' : String) : List Action :=
  [.resume 2 answer newId, .tick 5000, .retryFires "t1", .startPass "t1", .resume 2 (.composer (some true)) newId']

/-- The next answer, that the send failed, makes the pass hold the row. -/
private def holdsNext (w : World) : Bool :=
  w.passSends (.resume 2 (.threw "no answer") "n9") = some ("t1", "q1") &&
    (w.step (.resume 2 (.threw "no answer") "n9")).any fun w' =>
      decide (w.log.countP (·.holds "t1") < w'.log.countP (·.holds "t1"))

theorem holdsFailed_of_holdsNext (h : w.holdsNext = true) :
    ∃ w', w.HoldsFailed (.resume 2 (.threw "no answer") "n9") w' "t1" "q1" := by
  obtain ⟨hsends, hany⟩ := Bool.and_eq_true_iff.mp h
  obtain ⟨w', hstep, hmore⟩ := (Option.any_eq_true _ _).mp hany
  exact ⟨w', hstep, of_decide_eq_true hsends, of_decide_eq_true hmore⟩

/-- The row's third failed send in a row holds it. -/
theorem held_after_failures_thrice : ∃ w, Reaches (fun w a => w.strikesAnother a = false) w ∧
    ∃ a w', w.HoldsFailed a w' "t1" "q1" ∧ HeldAfter True "t1" "q1" w'.log := by
  obtain ⟨w, hreaches, hnext⟩ := reaches_of_exec .working
    (firstSend ++ sendAgain (.threw "no answer") "n2" "n3" ++ sendAgain (.threw "no answer") "n4" "n5")
    (C := fun w a => w.strikesAnother a = false) (p := holdsNext) (by decide +kernel)
  obtain ⟨w', hheld⟩ := holdsFailed_of_holdsNext hnext
  obtain ⟨hstruck, hlast, hrow⟩ := held_after_failures hreaches hheld
  exact ⟨w, hreaches, _, w', hheld, hstruck, hlast, fun _ => hrow fun _ _ hC => hC⟩

/-- A skipped attempt between the failed ones neither counts nor starts the count over. -/
theorem held_across_skipped : ¬ ∀ w, Reaches Always w → ∀ a w' threadId rowId, w.HoldsFailed a w' threadId rowId →
      ∀ attempt ∈ (attempts threadId w'.log).take MAX_DRAIN_FAILURES,
        attempt.1 = rowId ∧ attempt.2.isFailed = true := by
  intro h
  obtain ⟨w, hreaches, hnext⟩ := reaches_of_exec .working
    (firstSend ++ sendAgain (.threw "no answer") "n2" "n3" ++ sendAgain (.send .busy) "n4" "n5" ++
      sendAgain (.threw "no answer") "n6" "n7")
    (C := Always) (p := fun w => w.holdsNext &&
      (w.step (.resume 2 (.threw "no answer") "n9")).any fun w' =>
        decide (("q1", DeliverResult.skipped .busy) ∈ (attempts "t1" w'.log).take MAX_DRAIN_FAILURES))
    (by decide +kernel)
  obtain ⟨hnext, hskipped⟩ := Bool.and_eq_true_iff.mp hnext
  obtain ⟨w', hheld⟩ := holdsFailed_of_holdsNext hnext
  obtain ⟨m, hstep, hmem⟩ := (Option.any_eq_true _ _).mp hskipped
  obtain rfl := Option.some.inj (hstep.symm.trans hheld.1)
  have hfailed := (h w hreaches _ _ _ _ hheld _ (of_decide_eq_true hmem)).2
  cases hfailed

end World

end Sightr
