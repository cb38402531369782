import Sightr.Herd.World

/-!
# What a herd diff makes of each thread

The diff works through the panes, the missing threads and the snoozes, and each of its moves touches one
thread of its working copy. A thread is met by its own pane only, so its fate is a function of the thread
and of that pane, or of the thread alone where its pane is gone.
-/

namespace Sightr

open Keyed (Table)

/-! ### Single moves on the working copy -/

namespace HerdWork

@[simp] theorem next_push (w : HerdWork) (threadId : String) (payload : ServerPayload) :
    (w.push threadId payload).next = w.next := rfl

@[simp] theorem next_claim (w : HerdWork) (threadId : String) : (w.claim threadId).next = w.next := rfl

@[simp] theorem ids_modify (w : HerdWork) (threadId : String) (f : ServerThread → ServerThread) :
    (w.modify threadId f).ids = w.ids := by
  unfold modify
  split <;> rfl

@[simp] theorem claimed_modify (w : HerdWork) (threadId : String) (f : ServerThread → ServerThread) :
    (w.modify threadId f).claimed = w.claimed := by
  unfold modify
  split <;> rfl

theorem ids_patch (w : HerdWork) (at_ : Int) (threadId : String) (p : ServerThreadPatch) :
    (w.patch at_ threadId p).ids = w.ids := ids_modify _ _ _

theorem claimed_patch (w : HerdWork) (at_ : Int) (threadId : String) (p : ServerThreadPatch) :
    (w.patch at_ threadId p).claimed = w.claimed := claimed_modify _ _ _

theorem ids_shelfActive (w : HerdWork) (at_ : Int) (threadId : String) :
    (w.shelfActive at_ threadId).ids = w.ids := ids_modify _ _ _

theorem claimed_shelfActive (w : HerdWork) (at_ : Int) (threadId : String) :
    (w.shelfActive at_ threadId).claimed = w.claimed := claimed_modify _ _ _

variable (at_ : Int) (projection : HerdProjection) (json : RuntimeRequest → String)

theorem ids_archive (w : HerdWork) (threadId : String) (reason : ArchiveReason) :
    (w.archive at_ projection json threadId reason).ids = w.ids := by
  unfold archive
  dsimp only
  split_ifs
  · rw [ids_patch, ids_modify]
    rfl
  · rw [ids_modify]
    rfl

theorem claimed_archive (w : HerdWork) (threadId : String) (reason : ArchiveReason) :
    (w.archive at_ projection json threadId reason).claimed = w.claimed := by
  unfold archive
  dsimp only
  split_ifs
  · rw [claimed_patch, claimed_modify]
    rfl
  · rw [claimed_modify]
    rfl

theorem ids_archiveAll (w : HerdWork) (reason : ArchiveReason) (threads : List ServerThread) :
    (w.archiveAll at_ projection json reason threads).ids = w.ids := by
  induction threads generalizing w with
  | nil => rfl
  | cons other threads ih =>
    exact (ih _).trans ((w.claim other.id).ids_archive at_ projection json other.id reason)

theorem claimed_archiveAll (w : HerdWork) (reason : ArchiveReason) (threads : List ServerThread) :
    (w.archiveAll at_ projection json reason threads).claimed = w.claimed ++ threads.map (·.id) := by
  induction threads generalizing w with
  | nil => exact (List.append_nil _).symm
  | cons other threads ih =>
    have hrest := ih ((w.claim other.id).archive at_ projection json other.id reason)
    rw [claimed_archive] at hrest
    rw [List.map_cons, List.append_cons]
    exact hrest

theorem find?_modify (w : HerdWork) (threadId : String) (f : ServerThread → ServerThread)
    (hf : ∀ t, (f t).id = t.id) (k : String) :
    (w.modify threadId f).next.find? k =
      if k = threadId then (w.next.find? threadId).map f else w.next.find? k := by
  unfold modify
  cases hfind : w.next.find? threadId with
  | none =>
    dsimp only
    split_ifs with hk
    · rw [hk, hfind]
      rfl
    · rfl
  | some thread =>
    have hid : (f thread).id = threadId := (hf thread).trans (Table.key_of_find? hfind)
    dsimp only
    rw [Table.find?_set, hid]
    by_cases hk : k = threadId
    · rw [if_pos hk.symm, if_pos hk]
      rfl
    · rw [if_neg (Ne.symm hk), if_neg hk]

theorem find?_patch (w : HerdWork) (at_ : Int) (threadId : String) (p : ServerThreadPatch) (k : String) :
    (w.patch at_ threadId p).next.find? k =
      if k = threadId then (w.next.find? threadId).map (applyPatch · p at_) else w.next.find? k :=
  find?_modify _ threadId (applyPatch · p at_) (fun _ => rfl) k

theorem find?_shelfActive (w : HerdWork) (at_ : Int) (threadId : String) (k : String) :
    (w.shelfActive at_ threadId).next.find? k =
      if k = threadId then (w.next.find? threadId).map (·.reshelved .active none none at_)
      else w.next.find? k :=
  find?_modify _ threadId (·.reshelved .active none none at_) (fun _ => rfl) k

end HerdWork

/-- The diff's own copy of a thread it archives: the fields of its last shelf stay. -/
def archivedCopy (reason : ArchiveReason) (at_ : Int) (thread : ServerThread) : ServerThread :=
  { thread with
    shelf := .archived, archivedAt := some at_, archiveReason := some reason, updatedAt := at_
    paneAlive := some false }

theorem HerdWork.find?_archive (w : HerdWork) (at_ : Int) (projection : HerdProjection)
    (json : RuntimeRequest → String) (threadId : String) (reason : ArchiveReason) (k : String) :
    (w.archive at_ projection json threadId reason).next.find? k =
      if k = threadId then (w.next.find? threadId).map (archivedCopy reason at_)
      else w.next.find? k := by
  unfold HerdWork.archive
  dsimp only
  generalize hv : HerdWork.modify _ _ _ = v
  have hfind (k : String) : v.next.find? k = if k = threadId then (w.next.find? threadId).map fun t => { t with
        shelf := .archived, archivedAt := some at_, archiveReason := some reason, updatedAt := at_ }
      else w.next.find? k := by
    rw [← hv, HerdWork.find?_modify _ _ _ (by intro; rfl)]
    rfl
  have hself := hfind threadId
  rw [if_pos rfl] at hself
  cases hthread : w.next.find? threadId with
  | none =>
    rw [hthread] at hself
    split_ifs with halive hk hk
    · rw [HerdWork.find?_patch, if_pos hk, hself]
      rfl
    · rw [HerdWork.find?_patch, if_neg hk, hfind, if_neg hk]
    · rw [hfind, if_pos hk, hthread]
      rfl
    · rw [hfind, if_neg hk]
  | some thread =>
    rw [hthread, Option.map_some] at hself
    split_ifs with halive hk hk
    · rw [HerdWork.find?_patch, if_pos hk, hself]
      rfl
    · rw [HerdWork.find?_patch, if_neg hk, hfind, if_neg hk]
    · -- Without a patch the copy says already that the pane is gone.
      rw [hfind, if_pos hk, hthread]
      rw [hself] at halive
      have hgone : thread.paneAlive = some false := by simpa using halive
      simp only [Option.map_some, archivedCopy, hgone]
    · rw [hfind, if_neg hk]

/-! ### The fate of a thread -/

section

variable (projection : HerdProjection) (ctx : HerdDiffContext)

def updatedThread (pane : AgentView) (adopted : Bool) (current : ServerThread) : ServerThread :=
  let p := panePatch projection ctx pane adopted current
  let next := if p ≠ {} then applyPatch current p ctx.now else current
  if (current.shelf = .snoozed ∨ current.shelf = .settled) ∧ current.status = .working ∧
      paneStatus projection ctx pane current ≠ .working then next.reshelved .active none none ctx.now
  else next

/-- The pane's thread, brought in line with it: revived first, where it was archived for the loss of its
pane. -/
def knownThread (pane : AgentView) (adopted : Bool) (thread : ServerThread) : ServerThread :=
  if thread.shelf = .archived then
    if thread.archiveReason ≠ some .paneClosed ∧ thread.archiveReason ≠ some .closedWhileDown then
      if thread.paneAlive ≠ some true then applyPatch thread { paneAlive := .val true } ctx.now else thread
    else updatedThread projection ctx pane adopted (thread.reshelved .active none none ctx.now)
  else updatedThread projection ctx pane adopted thread

def paneFate (pane : AgentView) (thread : ServerThread) : ServerThread :=
  let (own, adopted) := threadOfPane projection pane
  if own.any (·.id = thread.id) then knownThread projection ctx pane adopted thread
  else if thread.shelf = .archived then thread
  else archivedCopy .terminalReplaced ctx.now thread

def goneFate (thread : ServerThread) : ServerThread :=
  if thread.shelf = .archived then
    if thread.archiveReason = some .user ∧ thread.paneAlive ≠ some false then
      applyPatch thread { paneAlive := .val false } ctx.now
    else thread
  else if ctx.first then archivedCopy .closedWhileDown ctx.now thread
  else if thread.status = .starting ∧ ctx.now - thread.updatedAt < STARTING_GRACE_MS then thread
  else if thread.id ∈ ctx.missingThreads then archivedCopy .paneClosed ctx.now thread
  else thread

def snoozeFate (thread : ServerThread) : ServerThread :=
  if thread.shelf = .snoozed ∧ thread.snoozedUntil.any (· ≤ ctx.now) then
    thread.reshelved .active none none ctx.now
  else thread

def threadFate (snap : EngineSnapshot) (thread : ServerThread) : ServerThread :=
  snoozeFate ctx <|
    match snap.panes.find? (·.paneId = thread.paneId) with
    | some pane => paneFate projection ctx pane thread
    | none => goneFate ctx thread

end

/-! ### What a fate keeps -/

structure SameThread (t s : ServerThread) : Prop where
  id : s.id = t.id
  paneId : s.paneId = t.paneId
  projectId : s.projectId = t.projectId

section

variable (projection : HerdProjection) (ctx : HerdDiffContext)

theorem sameThread_archivedCopy (reason : ArchiveReason) (at_ : Int) (t : ServerThread) :
    SameThread t (archivedCopy reason at_ t) := ⟨rfl, rfl, rfl⟩

theorem sameThread_updatedThread (pane : AgentView) (adopted : Bool) (t : ServerThread) :
    SameThread t (updatedThread projection ctx pane adopted t) := by
  unfold updatedThread
  dsimp only
  split_ifs <;> exact ⟨rfl, rfl, rfl⟩

theorem sameThread_paneFate (pane : AgentView) (t : ServerThread) :
    SameThread t (paneFate projection ctx pane t) := by
  unfold paneFate knownThread
  dsimp only
  split_ifs
  · exact ⟨rfl, rfl, rfl⟩
  · exact ⟨rfl, rfl, rfl⟩
  · have h := sameThread_updatedThread projection ctx pane (threadOfPane projection pane).2
      (t.reshelved .active none none ctx.now)
    exact ⟨h.id, h.paneId, h.projectId⟩
  · exact sameThread_updatedThread projection ctx pane _ t
  · exact ⟨rfl, rfl, rfl⟩
  · exact sameThread_archivedCopy _ _ t

theorem sameThread_goneFate (t : ServerThread) : SameThread t (goneFate ctx t) := by
  unfold goneFate
  split_ifs <;> exact ⟨rfl, rfl, rfl⟩

theorem sameThread_snoozeFate (t : ServerThread) : SameThread t (snoozeFate ctx t) := by
  unfold snoozeFate
  split_ifs <;> exact ⟨rfl, rfl, rfl⟩

theorem sameThread_threadFate (snap : EngineSnapshot) (t : ServerThread) :
    SameThread t (threadFate projection ctx snap t) := by
  unfold threadFate
  cases snap.panes.find? (·.paneId = t.paneId) with
  | some pane =>
    have h := sameThread_paneFate projection ctx pane t
    have hs := sameThread_snoozeFate ctx (paneFate projection ctx pane t)
    exact ⟨hs.id.trans h.id, hs.paneId.trans h.paneId, hs.projectId.trans h.projectId⟩
  | none =>
    have h := sameThread_goneFate ctx t
    have hs := sameThread_snoozeFate ctx (goneFate ctx t)
    exact ⟨hs.id.trans h.id, hs.paneId.trans h.paneId, hs.projectId.trans h.projectId⟩

end

/-! ### The moves as fates -/

section

variable {projection : HerdProjection} {ctx : HerdDiffContext}

variable {w : HerdWork}

theorem find?_archiveAll {at_ : Int} {json : RuntimeRequest → String} {reason : ArchiveReason}
    (threads : List ServerThread) (k : String) :
    (w.archiveAll at_ projection json reason threads).next.find? k =
      if k ∈ threads.map (·.id) then (w.next.find? k).map (archivedCopy reason at_)
      else w.next.find? k := by
  induction threads generalizing w with
  | nil => rfl
  | cons other threads ih =>
    have hrest := @ih ((w.claim other.id).archive at_ projection json other.id reason)
    have hfirst := (w.claim other.id).find?_archive at_ projection json other.id reason k
    simp only [HerdWork.archiveAll, List.foldl_cons, List.map_cons, List.mem_cons] at hrest ⊢
    rw [hrest, hfirst, HerdWork.next_claim]
    by_cases hk : k = other.id
    · subst hk
      by_cases hmem : other.id ∈ threads.map (·.id)
      · -- Archiving a copy twice is archiving it once.
        simp only [hmem, if_true, true_or, Option.map_map]
        rfl
      · simp [hmem]
    · simp [hk]

variable {pane : AgentView} {adopted : Bool}

theorem find?_updateThread {threadId : String} {current : ServerThread} (h : w.next.find? threadId = some current)
    (k : String) :
    (updateThread projection ctx w pane adopted threadId).next.find? k =
      if k = threadId then some (updatedThread projection ctx pane adopted current)
      else w.next.find? k := by
  unfold updateThread updatedThread
  simp only [h]
  set p := panePatch projection ctx pane adopted current with hp
  have hpatched (k : String) : (if p ≠ {} then w.patch ctx.now threadId p else w).next.find? k =
      if k = threadId then some (if p ≠ {} then applyPatch current p ctx.now else current)
      else w.next.find? k := by
    by_cases hempty : p ≠ {}
    · simp only [if_pos hempty, HerdWork.find?_patch, h, Option.map_some]
    · simp only [if_neg hempty]
      split_ifs with hk
      · rw [hk, h]
      · rfl
  by_cases hback : (current.shelf = .snoozed ∨ current.shelf = .settled) ∧ current.status = .working ∧
      paneStatus projection ctx pane current ≠ .working
  · simp only [if_pos hback, HerdWork.find?_shelfActive, hpatched, if_true, Option.map_some]
    split_ifs <;> rfl
  · simp only [if_neg hback, hpatched]

theorem updateThread_marks (w : HerdWork) (pane : AgentView) (adopted : Bool)
    (threadId : String) : (updateThread projection ctx w pane adopted threadId).claimed = w.claimed ∧
      (updateThread projection ctx w pane adopted threadId).ids = w.ids := by
  unfold updateThread
  cases w.next.find? threadId with
  | none => exact ⟨rfl, rfl⟩
  | some current =>
    dsimp only
    split_ifs <;>
      simp only [HerdWork.claimed_shelfActive, HerdWork.claimed_patch, HerdWork.ids_shelfActive,
        HerdWork.ids_patch, and_self]

theorem knownPane_marks (w : HerdWork) (pane : AgentView) (adopted : Bool) (thread : ServerThread) :
    (knownPane projection ctx w pane adopted thread).claimed = w.claimed ++ [thread.id] ∧
      (knownPane projection ctx w pane adopted thread).ids = w.ids := by
  unfold knownPane
  dsimp only
  split_ifs
  · exact ⟨HerdWork.claimed_patch _ _ _ _, HerdWork.ids_patch _ _ _ _⟩
  · exact ⟨rfl, rfl⟩
  · obtain ⟨hclaimed, hids⟩ := @updateThread_marks projection ctx
      ((w.claim thread.id).shelfActive ctx.now thread.id) pane adopted thread.id
    exact ⟨hclaimed.trans (HerdWork.claimed_shelfActive _ _ _), hids.trans (HerdWork.ids_shelfActive _ _ _)⟩
  · exact updateThread_marks (w.claim thread.id) pane adopted thread.id

theorem find?_knownPane {thread : ServerThread} (h : w.next.find? thread.id = some thread) (k : String) :
    (knownPane projection ctx w pane adopted thread).next.find? k =
      if k = thread.id then some (knownThread projection ctx pane adopted thread)
      else w.next.find? k := by
  unfold knownPane knownThread
  dsimp only
  by_cases harchived : thread.shelf = .archived
  · simp only [if_pos harchived]
    by_cases hkept : thread.archiveReason ≠ some .paneClosed ∧ thread.archiveReason ≠ some .closedWhileDown
    · simp only [if_pos hkept]
      by_cases halive : thread.paneAlive ≠ some true
      · simp only [if_pos halive, HerdWork.find?_patch, HerdWork.next_claim, h, Option.map_some]
      · simp only [if_neg halive, HerdWork.next_claim]
        split_ifs with hk
        · rw [hk, h]
        · rfl
    · simp only [if_neg hkept]
      have hrevived : ((w.claim thread.id).shelfActive ctx.now thread.id).next.find? thread.id =
          some (thread.reshelved .active none none ctx.now) := by
        rw [HerdWork.find?_shelfActive, if_pos rfl, HerdWork.next_claim, h]
        rfl
      rw [find?_updateThread hrevived]
      split_ifs with hk
      · rfl
      · rw [HerdWork.find?_shelfActive, if_neg hk, HerdWork.next_claim]
  · simp only [if_neg harchived]
    rw [find?_updateThread (by rw [HerdWork.next_claim]; exact h), HerdWork.next_claim]

end

/-! ### Threads and their panes -/

/-- No two threads share an id, or a pane and a terminal. -/
structure HerdProjection.Coherent (projection : HerdProjection) : Prop where
  ids : (projection.threads.map (·.id)).Nodup
  panes : ∀ t ∈ projection.threads, ∀ s ∈ projection.threads, t.paneId = s.paneId →
    t.terminalId = s.terminalId → t = s

theorem HerdProjection.Coherent.eq_of_id {projection : HerdProjection} (h : projection.Coherent)
    {t s : ServerThread} (ht : t ∈ projection.threads) (hs : s ∈ projection.threads) (hid : t.id = s.id) :
    t = s :=
  List.inj_on_of_nodup_map h.ids ht hs hid

section

variable {projection : HerdProjection} {pane : AgentView}

theorem threadOfPane_some {thread : ServerThread} {adopted : Bool}
    (h : threadOfPane projection pane = (some thread, adopted)) :
    thread ∈ projection.threads ∧ thread.paneId = pane.paneId ∧
      (adopted = false ∧ thread.terminalId = pane.terminalId.getD "" ∨
        adopted = true ∧ thread.terminalId = "" ∧ pane.terminalId.getD "" ≠ "" ∧ thread.shelf ≠ .archived ∧
          ∀ t ∈ projection.threads, t.paneId = pane.paneId → t.terminalId ≠ pane.terminalId.getD "") := by
  unfold threadOfPane at h
  dsimp only at h
  cases hkey : byKey projection pane.paneId (pane.terminalId.getD "") with
  | some t =>
    simp only [hkey, Prod.mk.injEq, Option.some.injEq] at h
    obtain ⟨rfl, rfl⟩ := h
    have htest := List.find?_some hkey
    simp only [Bool.and_eq_true, decide_eq_true_eq] at htest
    exact ⟨List.mem_of_find?_eq_some hkey, htest.1, .inl ⟨rfl, htest.2⟩⟩
  | none =>
    simp only [hkey] at h
    split_ifs at h with hterminal
    · obtain ⟨hfind, hadopted⟩ := Prod.mk.inj h
      have htest := List.find?_some hfind
      have hmem := List.mem_of_find?_eq_some hfind
      simp only [onPane, List.mem_filter, Bool.and_eq_true, decide_eq_true_eq] at hmem htest
      refine ⟨hmem.1, hmem.2.2, .inr ⟨?_, htest, hterminal, hmem.2.1, fun t ht hpane heq => ?_⟩⟩
      · rw [← hadopted, hfind]
        rfl
      · have hnone := List.find?_eq_none.mp hkey t ht
        simp [hpane, heq] at hnone
    · cases (Prod.mk.inj h).1

theorem threadOfPane_none (h : (threadOfPane projection pane).1 = none) :
    ∀ t ∈ projection.threads, t.paneId = pane.paneId → t.terminalId ≠ pane.terminalId.getD "" := by
  unfold threadOfPane at h
  dsimp only at h
  cases hkey : byKey projection pane.paneId (pane.terminalId.getD "") with
  | some t => simp [hkey] at h
  | none =>
    intro t ht hpane heq
    have hnone := List.find?_eq_none.mp hkey t ht
    simp [hpane, heq] at hnone

end

/-! ### The pane loop -/

/-- The first ids that a diff asks for are new, and none is the empty string. -/
def FreshIds (ctx : HerdDiffContext) (threads : List ServerThread) (n : Nat) : Prop :=
  ∀ i < n, ctx.newId i ≠ "" ∧ ctx.newId i ∉ threads.map (·.id) ∧ ∀ j < i, ctx.newId j ≠ ctx.newId i

instance (ctx : HerdDiffContext) (threads : List ServerThread) (n : Nat) : Decidable (FreshIds ctx threads n) := by
  unfold FreshIds
  infer_instance

def fateAfter (projection : HerdProjection) (ctx : HerdDiffContext) (done : List AgentView)
    (thread : ServerThread) : ServerThread :=
  match done.find? (·.paneId = thread.paneId) with
  | some pane => paneFate projection ctx pane thread
  | none => thread

/-- What the pane loop has done after the panes in `done`: their threads have met their fates, and a pane
without a thread has a new one. -/
structure PaneLoop (projection : HerdProjection) (ctx : HerdDiffContext) (done : List AgentView)
    (w : HerdWork) : Prop where
  own : ∀ t ∈ projection.threads, w.next.find? t.id = some (fateAfter projection ctx done t)
  made : ∀ pane ∈ done, (threadOfPane projection pane).1 = none →
    ∃ i < w.ids, w.next.find? (ctx.newId i) = some (createdThread ctx pane (ctx.newId i))
  only : ∀ k t, w.next.find? k = some t → (∃ s ∈ projection.threads, s.id = k) ∨
    ∃ pane ∈ done, (threadOfPane projection pane).1 = none ∧
      ∃ i < w.ids, k = ctx.newId i ∧ t = createdThread ctx pane k
  claimed : ∀ id ∈ w.claimed, ∃ t ∈ projection.threads, t.id = id ∧ t.paneId ∈ done.map (·.paneId)
  ids : w.ids ≤ done.length

section

variable {projection : HerdProjection} {ctx : HerdDiffContext}

theorem PaneLoop.start (hcoherent : projection.Coherent) : PaneLoop projection ctx [] (startWork projection) where
  own _ ht := (Table.find?_ofList hcoherent.ids).mpr ⟨ht, rfl⟩
  made _ h := absurd h List.not_mem_nil
  only _ t h := .inl ⟨t, (Table.find?_ofList hcoherent.ids).mp h⟩
  claimed _ h := absurd h List.not_mem_nil
  ids := Nat.le_refl _

variable {done : List AgentView} {pane : AgentView} {t : ServerThread}

theorem fateAfter_append_of_ne (h : t.paneId ≠ pane.paneId) :
    fateAfter projection ctx (done ++ [pane]) t = fateAfter projection ctx done t := by
  unfold fateAfter
  rw [List.find?_append]
  cases done.find? (·.paneId = t.paneId) with
  | some found => rfl
  | none => simp [Ne.symm h]

theorem fateAfter_of_new (h : t.paneId ∉ done.map (·.paneId)) : fateAfter projection ctx done t = t := by
  unfold fateAfter
  have hnone : done.find? (·.paneId = t.paneId) = none := by
    rw [List.find?_eq_none]
    intro pane hpane heq
    exact h (List.mem_map.mpr ⟨pane, hpane, by simpa using heq⟩)
  rw [hnone]

theorem fateAfter_append_of_eq (hnew : pane.paneId ∉ done.map (·.paneId)) (h : t.paneId = pane.paneId) :
    fateAfter projection ctx (done ++ [pane]) t = paneFate projection ctx pane t := by
  unfold fateAfter
  have hnone : done.find? (·.paneId = t.paneId) = none := by
    rw [List.find?_eq_none]
    intro other hother heq
    rw [h] at heq
    exact hnew (List.mem_map.mpr ⟨other, hother, by simpa using heq⟩)
  rw [List.find?_append, hnone]
  simp [h]

def otherThreads (projection : HerdProjection) (pane : AgentView) (own : Option ServerThread) : List ServerThread :=
  (onPane projection pane.paneId).filter fun other => own.all (other.id ≠ ·.id)

variable {own : Option ServerThread}

theorem mem_otherThreads : t ∈ otherThreads projection pane own ↔ t ∈ projection.threads ∧ t.shelf ≠ .archived ∧
      t.paneId = pane.paneId ∧ own.any (·.id = t.id) = false := by
  unfold otherThreads onPane
  cases own with
  | none => simp
  | some thread =>
    have hne : (t.id ≠ thread.id) ↔ (thread.id ≠ t.id) := ne_comm
    simp only [List.mem_filter, Option.all_some, Option.any_some, hne, Bool.and_eq_true,
      decide_eq_true_eq, decide_eq_false_iff_not]
    tauto

variable {w : HerdWork}

theorem find?_others {done : List AgentView} {pane : AgentView}
    {own : Option ServerThread} (hcoherent : projection.Coherent) (hloop : PaneLoop projection ctx done w)
    {t : ServerThread} (ht : t ∈ projection.threads) :
    (w.archiveAll ctx.now projection ctx.requestJson .terminalReplaced
        (otherThreads projection pane own)).next.find? t.id =
      some (if t ∈ otherThreads projection pane own then
          archivedCopy .terminalReplaced ctx.now (fateAfter projection ctx done t)
        else fateAfter projection ctx done t) := by
  rw [find?_archiveAll, hloop.own t ht]
  by_cases hother : t ∈ otherThreads projection pane own
  · rw [if_pos (List.mem_map.mpr ⟨t, hother, rfl⟩), if_pos hother]
    rfl
  · rw [if_neg, if_neg hother]
    intro hmem
    obtain ⟨s, hs, hid⟩ := List.mem_map.mp hmem
    exact hother (hcoherent.eq_of_id (mem_otherThreads.mp hs).1 ht hid ▸ hs)

theorem PaneLoop.onNewPane {done : List AgentView} {pane : AgentView}
    {own : Option ServerThread} (hloop : PaneLoop projection ctx done w)
    (hnew : pane.paneId ∉ done.map (·.paneId)) {k : String} {t : ServerThread}
    (hfind : (w.archiveAll ctx.now projection ctx.requestJson .terminalReplaced
      (otherThreads projection pane own)).next.find? k = some t) (hpane : t.paneId = pane.paneId) :
    ∃ s ∈ projection.threads, s.id = k ∧ s.paneId = pane.paneId ∧ s.terminalId = t.terminalId := by
  obtain ⟨u, hu, hupane, huterminal⟩ : ∃ u, w.next.find? k = some u ∧ u.paneId = t.paneId ∧
      u.terminalId = t.terminalId := by
    rw [find?_archiveAll] at hfind
    split_ifs at hfind
    · obtain ⟨u, hu, rfl⟩ := Option.map_eq_some_iff.mp hfind
      exact ⟨u, hu, rfl, rfl⟩
    · exact ⟨t, hfind, rfl, rfl⟩
  rcases hloop.only k u hu with ⟨s, hs, rfl⟩ | ⟨other, hother, -, i, -, -, rfl⟩
  · obtain rfl := Option.some.inj (hu.symm.trans (hloop.own s hs))
    have hspane : s.paneId = pane.paneId := by
      rw [← hpane, ← hupane]
      unfold fateAfter
      split
      · exact (sameThread_paneFate ..).paneId.symm
      · rfl
    rw [fateAfter_of_new (hspane ▸ hnew)] at huterminal
    exact ⟨s, hs, rfl, hspane, huterminal⟩
  · exact absurd (List.mem_map.mpr ⟨other, hother, hupane.trans hpane⟩) hnew

variable {adopted : Bool}

theorem paneFate_own {thread : ServerThread} (hown : threadOfPane projection pane = (some thread, adopted)) :
    paneFate projection ctx pane thread = knownThread projection ctx pane adopted thread := by
  simp [paneFate, hown]

theorem paneFate_other (hown : threadOfPane projection pane = (own, adopted)) (ht : t ∈ projection.threads)
    (hpane : t.paneId = pane.paneId) (hother : own.any (·.id = t.id) = false) :
    paneFate projection ctx pane t =
      if t ∈ otherThreads projection pane own then archivedCopy .terminalReplaced ctx.now t else t := by
  unfold paneFate
  simp only [hown, hother, Bool.false_eq_true, if_false]
  by_cases harchived : t.shelf = .archived
  · rw [if_pos harchived, if_neg fun h => (mem_otherThreads.mp h).2.1 harchived]
  · rw [if_neg harchived, if_pos (mem_otherThreads.mpr ⟨ht, harchived, hpane, hother⟩)]

theorem not_other_of_ne (h : t.paneId ≠ pane.paneId) : t ∉ otherThreads projection pane own :=
  fun hmem => h (mem_otherThreads.mp hmem).2.2.1

/-- One turn of the pane loop: the pane's threads meet their fates, and a pane without one gets one. -/
theorem PaneLoop.step (hcoherent : projection.Coherent)
    (hfresh : FreshIds ctx projection.threads (done.length + 1)) (hnew : pane.paneId ∉ done.map (·.paneId))
    (hloop : PaneLoop projection ctx done w) :
    PaneLoop projection ctx (done ++ [pane]) (paneStep projection ctx w pane) := by
  obtain ⟨own, adopted, hown⟩ : ∃ own adopted, threadOfPane projection pane = (own, adopted) := ⟨_, _, rfl⟩
  have hothers (t : ServerThread) (ht : t ∈ projection.threads) :=
    @find?_others projection ctx w done pane own hcoherent hloop t ht
  have hstart (t : ServerThread) (hpane : t.paneId = pane.paneId) : fateAfter projection ctx done t = t :=
    fateAfter_of_new (hpane ▸ hnew)
  have hclaimed : ∀ id ∈ (w.archiveAll ctx.now projection ctx.requestJson .terminalReplaced
      (otherThreads projection pane own)).claimed,
      ∃ t ∈ projection.threads, t.id = id ∧ t.paneId ∈ (done ++ [pane]).map (·.paneId) := by
    intro id hid
    rw [HerdWork.claimed_archiveAll, List.mem_append, List.mem_map] at hid
    rcases hid with hid | ⟨t, ht, rfl⟩
    · obtain ⟨t, ht, hid, hdone⟩ := hloop.claimed id hid
      exact ⟨t, ht, hid, by simp [List.mem_map.mp hdone]⟩
    · obtain ⟨hmem, -, hpane, -⟩ := mem_otherThreads.mp ht
      exact ⟨t, hmem, rfl, by simp [hpane]⟩
  -- No id that was asked for belongs to a thread of the projection.
  have hids : ∀ i < w.ids, ∀ s ∈ projection.threads, ctx.newId i ≠ s.id := by
    intro i hi s hs heq
    refine (hfresh i (by have := hloop.ids; omega)).2.1 (heq ▸ List.mem_map.mpr ⟨s, hs, rfl⟩)
  have hnoOther : ∀ k, (∀ s ∈ projection.threads, s.id ≠ k) →
      k ∉ (otherThreads projection pane own).map (·.id) := by
    intro k hk hmem
    obtain ⟨s, hs, rfl⟩ := List.mem_map.mp hmem
    exact hk s (mem_otherThreads.mp hs).1 rfl
  have honly : ∀ k t, (w.archiveAll ctx.now projection ctx.requestJson .terminalReplaced
      (otherThreads projection pane own)).next.find? k = some t →
      (∃ s ∈ projection.threads, s.id = k) ∨ ∃ pane ∈ done, (threadOfPane projection pane).1 = none ∧
        ∃ i < w.ids, k = ctx.newId i ∧ t = createdThread ctx pane k := by
    intro k t hfind
    rw [find?_archiveAll] at hfind
    split_ifs at hfind with hmem
    · obtain ⟨s, hs, rfl⟩ := List.mem_map.mp hmem
      exact .inl ⟨s, (mem_otherThreads.mp hs).1, rfl⟩
    · exact hloop.only k t hfind
  cases own with
  | some thread =>
    have hstep : paneStep projection ctx w pane = knownPane projection ctx
        (w.archiveAll ctx.now projection ctx.requestJson .terminalReplaced
          (otherThreads projection pane (some thread))) pane adopted thread := by
      unfold paneStep
      simp only [hown]
      rfl
    obtain ⟨hthread, hpane, -⟩ := threadOfPane_some hown
    have hfind := hothers thread hthread
    rw [if_neg fun h => by simpa using (mem_otherThreads.mp h).2.2.2, hstart thread hpane] at hfind
    obtain ⟨hmarks, hmarkedIds⟩ := @knownPane_marks projection ctx
      (w.archiveAll ctx.now projection ctx.requestJson .terminalReplaced
        (otherThreads projection pane (some thread))) pane adopted thread
    rw [hstep]
    refine ⟨fun t ht => ?_, fun other hother hnone => ?_, fun k t hk => ?_, fun id hid => ?_, ?_⟩
    · rw [find?_knownPane hfind]
      by_cases hid : t.id = thread.id
      · obtain rfl := hcoherent.eq_of_id ht hthread hid
        rw [if_pos rfl, fateAfter_append_of_eq hnew hpane, paneFate_own hown]
      · rw [if_neg hid, hothers t ht]
        by_cases hsame : t.paneId = pane.paneId
        · have hother : (some thread).any (·.id = t.id) = false := by simpa using Ne.symm hid
          rw [fateAfter_append_of_eq hnew hsame, paneFate_other hown ht hsame hother, hstart t hsame]
        · rw [fateAfter_append_of_ne hsame, if_neg (not_other_of_ne hsame)]
    · rcases List.mem_append.mp hother with hother | hother
      · obtain ⟨i, hi, hmade⟩ := hloop.made other hother hnone
        refine ⟨i, by rw [hmarkedIds, HerdWork.ids_archiveAll]; exact hi, ?_⟩
        rw [find?_knownPane hfind, if_neg (hids i hi thread hthread), find?_archiveAll,
          if_neg (hnoOther _ fun s hs => Ne.symm (hids i hi s hs)), hmade]
      · rw [List.mem_singleton.mp hother, hown] at hnone
        cases hnone
    · rw [find?_knownPane hfind] at hk
      split_ifs at hk with hid
      · exact .inl ⟨thread, hthread, hid.symm⟩
      · rcases honly k t hk with hold | ⟨other, hother, hnone, i, hi, hmade⟩
        · exact .inl hold
        · refine .inr ⟨other, List.mem_append_left _ hother, hnone, i, ?_, hmade⟩
          rw [hmarkedIds, HerdWork.ids_archiveAll]
          exact hi
    · rw [hmarks, List.mem_append, List.mem_singleton] at hid
      rcases hid with hid | rfl
      · exact hclaimed id hid
      · exact ⟨thread, hthread, rfl, by simp [hpane]⟩
    · rw [hmarkedIds, HerdWork.ids_archiveAll, List.length_append]
      exact Nat.le_add_right_of_le hloop.ids
  | none =>
    have hstep : paneStep projection ctx w pane =
        { (w.archiveAll ctx.now projection ctx.requestJson .terminalReplaced
            (otherThreads projection pane none)).push (ctx.newId w.ids)
              (.threadCreated (createdThread ctx pane (ctx.newId w.ids))) with
          next := (w.archiveAll ctx.now projection ctx.requestJson .terminalReplaced
            (otherThreads projection pane none)).next.set (createdThread ctx pane (ctx.newId w.ids))
          ids := w.ids + 1 } := by
      unfold paneStep
      simp only [hown]
      rw [← HerdWork.ids_archiveAll ctx.now projection ctx.requestJson w .terminalReplaced
        (otherThreads projection pane none)]
      rfl
    have hnewId : (createdThread ctx pane (ctx.newId w.ids)).id = ctx.newId w.ids := rfl
    have hlast := hfresh w.ids (by have := hloop.ids; omega)
    have hnotLast : ∀ s ∈ projection.threads, s.id ≠ ctx.newId w.ids := fun s hs heq =>
      hlast.2.1 (heq ▸ List.mem_map.mpr ⟨s, hs, rfl⟩)
    rw [hstep]
    refine ⟨fun t ht => ?_, fun other hother hnone => ?_, fun k t hk => ?_, fun id hid => ?_, ?_⟩
    · dsimp only
      rw [Table.find?_set, hnewId, if_neg (Ne.symm (hnotLast t ht)), hothers t ht]
      by_cases hsame : t.paneId = pane.paneId
      · rw [fateAfter_append_of_eq hnew hsame, paneFate_other hown ht hsame rfl, hstart t hsame]
      · rw [fateAfter_append_of_ne hsame, if_neg (not_other_of_ne hsame)]
    · rcases List.mem_append.mp hother with hother | hother
      · obtain ⟨i, hi, hmade⟩ := hloop.made other hother hnone
        refine ⟨i, Nat.lt_succ_of_lt hi, ?_⟩
        dsimp only
        rw [Table.find?_set, hnewId, if_neg (Ne.symm (hlast.2.2 i hi)), find?_archiveAll,
          if_neg (hnoOther _ fun s hs => Ne.symm (hids i hi s hs)), hmade]
      · obtain rfl := List.mem_singleton.mp hother
        exact ⟨w.ids, Nat.lt_succ_self _, Table.find?_set_self _ _⟩
    · dsimp only at hk
      rw [Table.find?_set, hnewId] at hk
      split_ifs at hk with hid
      · cases hk
        exact .inr ⟨pane, by simp, by rw [hown], w.ids, Nat.lt_succ_self _, hid.symm, by rw [hid]⟩
      · rcases honly k t hk with hold | ⟨other, hother, hnone, i, hi, hmade⟩
        · exact .inl hold
        · exact .inr ⟨other, List.mem_append_left _ hother, hnone, i, Nat.lt_succ_of_lt hi, hmade⟩
    · exact hclaimed id hid
    · rw [List.length_append]
      exact Nat.succ_le_succ hloop.ids

theorem PaneLoop.all {snap : EngineSnapshot} (hcoherent : projection.Coherent)
    (hfresh : FreshIds ctx projection.threads snap.panes.length)
    (hpanes : (snap.panes.map (·.paneId)).Nodup) :
    PaneLoop projection ctx snap.panes (snap.panes.foldl (paneStep projection ctx) (startWork projection)) := by
  have hrest : ∀ (rest done : List AgentView) (w : HerdWork), done ++ rest = snap.panes →
      PaneLoop projection ctx done w →
      PaneLoop projection ctx snap.panes (rest.foldl (paneStep projection ctx) w) := by
    intro rest
    induction rest with
    | nil =>
      rintro done w hall hloop
      rw [List.append_nil] at hall
      exact hall ▸ hloop
    | cons pane rest ih =>
      intro done w hall hloop
      rw [← hall] at hpanes hfresh
      have hnew : pane.paneId ∉ done.map (·.paneId) := by
        rw [List.map_append, List.map_cons, List.nodup_middle, List.nodup_cons] at hpanes
        exact fun h => hpanes.1 (List.mem_append_left _ h)
      refine ih (done ++ [pane]) _ (by rw [List.append_assoc]; exact hall) (hloop.step hcoherent ?_ hnew)
      exact fun i hi => hfresh i (by rw [List.length_append, List.length_cons]; omega)
  exact hrest snap.panes [] _ rfl (.start hcoherent)

end

/-! ### The threads whose pane is gone, and the snoozes -/

section

variable (projection : HerdProjection) (ctx : HerdDiffContext)

def newlyMissing (live : List String) (thread : ServerThread) : Bool :=
  thread.shelf ≠ .archived && thread.paneId ∉ live && !ctx.first &&
    !decide (thread.status = .starting ∧ ctx.now - thread.updatedAt < STARTING_GRACE_MS) &&
    thread.id ∉ ctx.missingThreads

/-- What the loop over missing threads makes of a thread's copy. -/
private def missingFate (live : List String) (thread copy : ServerThread) : ServerThread :=
  if thread.shelf = .archived ∨ thread.paneId ∈ live then copy
  else if ctx.first then archivedCopy .closedWhileDown ctx.now copy
  else if thread.status = .starting ∧ ctx.now - thread.updatedAt < STARTING_GRACE_MS then copy
  else if thread.id ∈ ctx.missingThreads then archivedCopy .paneClosed ctx.now copy
  else copy

/-- What the loop over closed threads makes of a thread's copy. -/
private def closedFate (live : List String) (thread copy : ServerThread) : ServerThread :=
  if thread.shelf ≠ .archived ∨ thread.archiveReason ≠ some .user ∨ thread.paneAlive = some false ∨
      thread.paneId ∈ live then copy
  else applyPatch copy { paneAlive := .val false } ctx.now

end

theorem find?_foldl {step : HerdWork → ServerThread → HerdWork}
    {f : ServerThread → ServerThread → ServerThread} {I : HerdWork → Prop} {threads : List ServerThread}
    (hnodup : (threads.map (·.id)).Nodup)
    (hstep : ∀ w, I w → ∀ t ∈ threads, I (step w t) ∧ ∀ k, (step w t).next.find? k =
      if k = t.id then (w.next.find? k).map (f t) else w.next.find? k)
    {w : HerdWork} (hw : I w) :
    (∀ t ∈ threads, (threads.foldl step w).next.find? t.id = (w.next.find? t.id).map (f t)) ∧
      ∀ k, k ∉ threads.map (·.id) → (threads.foldl step w).next.find? k = w.next.find? k := by
  induction threads generalizing w with
  | nil => exact ⟨fun t ht => absurd ht List.not_mem_nil, fun k _ => rfl⟩
  | cons thread threads ih =>
    rw [List.map_cons, List.nodup_cons] at hnodup
    obtain ⟨hkept, hfind⟩ := hstep w hw thread (by simp)
    obtain ⟨hmem, hnot⟩ := ih hnodup.2 (fun w hw t ht => hstep w hw t (by simp [ht])) hkept
    refine ⟨fun t ht => ?_, fun k hk => ?_⟩
    · rcases List.mem_cons.mp ht with rfl | ht
      · rw [List.foldl_cons, hnot _ hnodup.1, hfind, if_pos rfl]
      · have hne : t.id ≠ thread.id := fun h => hnodup.1 (h ▸ List.mem_map.mpr ⟨t, ht, rfl⟩)
        rw [List.foldl_cons, hmem t ht, hfind, if_neg hne]
    · rw [List.map_cons, List.mem_cons, not_or] at hk
      rw [List.foldl_cons, hnot k hk.2, hfind, if_neg hk.1]

section

variable {projection : HerdProjection} {ctx : HerdDiffContext}

def ClaimsListed (projection : HerdProjection) (live : List String) (w : HerdWork) : Prop :=
  ∀ t ∈ projection.threads, t.id ∈ w.claimed → t.paneId ∈ live

theorem missingStep_work {live : List String} {w : HerdWork} (hw : ClaimsListed projection live w)
    (missing : List String) {t : ServerThread} (ht : t ∈ projection.threads) :
    ClaimsListed projection live (missingStep projection ctx live (w, missing) t).1 ∧
      (missingStep projection ctx live (w, missing) t).2 =
        missing ++ (if newlyMissing ctx live t then [t.id] else []) ∧
      ∀ k, (missingStep projection ctx live (w, missing) t).1.next.find? k =
        if k = t.id then (w.next.find? k).map (missingFate ctx live t) else w.next.find? k := by
  have hclaimed : t.id ∈ w.claimed ∨ t.shelf = .archived ∨ t.paneId ∈ live ↔
      t.shelf = .archived ∨ t.paneId ∈ live :=
    ⟨fun h => h.elim (fun h => .inr (hw t ht h)) id, .inr⟩
  have hself (k : String) : w.next.find? k = if k = t.id then (w.next.find? k).map id else w.next.find? k := by
    rw [Option.map_id, id, ite_self]
  have harchive (reason : ArchiveReason) (k : String) :
      (w.archive ctx.now projection ctx.requestJson t.id reason).next.find? k =
        if k = t.id then (w.next.find? k).map (archivedCopy reason ctx.now) else w.next.find? k := by
    rw [HerdWork.find?_archive]
    split_ifs with hk
    · rw [hk]
    · rfl
  have hkept (reason : ArchiveReason) :
      ClaimsListed projection live (w.archive ctx.now projection ctx.requestJson t.id reason) := by
    unfold ClaimsListed
    rw [HerdWork.claimed_archive]
    exact hw
  unfold missingStep missingFate newlyMissing
  simp only [hclaimed]
  by_cases hskip : t.shelf = .archived ∨ t.paneId ∈ live
  · simp only [if_pos hskip]
    refine ⟨hw, ?_, hself⟩
    rcases hskip with h | h <;> simp [h]
  have hlive : t.shelf ≠ .archived ∧ t.paneId ∉ live := not_or.mp hskip
  simp only [if_neg hskip]
  by_cases hfirst : ctx.first = true
  · simp only [if_pos hfirst]
    exact ⟨hkept _, by simp [hfirst], harchive _⟩
  simp only [if_neg hfirst]
  by_cases hgrace : t.status = .starting ∧ ctx.now - t.updatedAt < STARTING_GRACE_MS
  · simp only [if_pos hgrace]
    exact ⟨hw, by simp [hgrace], hself⟩
  simp only [if_neg hgrace]
  by_cases hmissing : t.id ∈ ctx.missingThreads
  · simp only [if_pos hmissing]
    exact ⟨hkept _, by simp [hmissing], harchive _⟩
  · simp only [if_neg hmissing]
    exact ⟨hw, by simp [hlive, hfirst, hgrace, hmissing], hself⟩

variable {live : List String} {w : HerdWork} {t : ServerThread}

theorem closedStep_work (hw : ClaimsListed projection live w) (ht : t ∈ projection.threads) :
    ClaimsListed projection live (closedStep ctx live w t) ∧ ∀ k, (closedStep ctx live w t).next.find? k =
        if k = t.id then (w.next.find? k).map (closedFate ctx live t) else w.next.find? k := by
  have hclaimed : t.shelf ≠ .archived ∨ t.archiveReason ≠ some .user ∨ t.paneAlive = some false ∨
      t.id ∈ w.claimed ∨ t.paneId ∈ live ↔
        t.shelf ≠ .archived ∨ t.archiveReason ≠ some .user ∨ t.paneAlive = some false ∨ t.paneId ∈ live :=
    or_congr_right <| or_congr_right <| or_congr_right ⟨fun h => h.elim (hw t ht) id, .inr⟩
  unfold closedStep closedFate
  simp only [hclaimed]
  by_cases hskip : t.shelf ≠ .archived ∨ t.archiveReason ≠ some .user ∨ t.paneAlive = some false ∨ t.paneId ∈ live
  · simp only [if_pos hskip]
    exact ⟨hw, fun k => by rw [Option.map_id', ite_self]⟩
  · simp only [if_neg hskip]
    refine ⟨?_, fun k => ?_⟩
    · unfold ClaimsListed
      rw [HerdWork.claimed_patch]
      exact hw
    · rw [HerdWork.find?_patch]
      split_ifs with hk
      · rw [hk]
      · rfl

theorem missingLoop_eq (hw : ClaimsListed projection live w) :
    projection.threads.foldl (missingStep projection ctx live) (w, []) =
      (projection.threads.foldl (fun w t => (missingStep projection ctx live (w, []) t).1) w,
        (projection.threads.filter (newlyMissing ctx live)).map (·.id)) := by
  have hrest : ∀ (threads : List ServerThread), (∀ t ∈ threads, t ∈ projection.threads) →
      ∀ (w : HerdWork) (missing : List String), ClaimsListed projection live w →
      threads.foldl (missingStep projection ctx live) (w, missing) =
        (threads.foldl (fun w t => (missingStep projection ctx live (w, []) t).1) w,
          missing ++ (threads.filter (newlyMissing ctx live)).map (·.id)) := by
    intro threads
    induction threads with
    | nil =>
      intro _ w missing _
      simp
    | cons t threads ih =>
      intro hall w missing hw
      have ht := hall t (by simp)
      obtain ⟨hkept, hmarks, -⟩ := @missingStep_work projection ctx live w hw missing t ht
      have hwork : (missingStep projection ctx live (w, missing) t).1 =
          (missingStep projection ctx live (w, []) t).1 := by
        unfold missingStep
        dsimp only
        split_ifs <;> rfl
      rw [List.foldl_cons, List.foldl_cons]
      conv_lhs => rw [← Prod.mk.eta (p := missingStep projection ctx live (w, missing) t), hmarks, hwork]
      rw [ih (fun s hs => hall s (by simp [hs])) _ _ (hwork ▸ hkept), List.filter_cons]
      split_ifs <;> simp
  simpa using hrest projection.threads (fun _ ht => ht) w [] hw

/-- A diff has met all its threads: each of the projection has its fate, and a pane without a thread has a
new one. -/
structure ThreadFates (projection : HerdProjection) (ctx : HerdDiffContext) (snap : EngineSnapshot)
    (next : Table (@ThreadOf.id AgentSessionRef)) : Prop where
  own : ∀ t ∈ projection.threads, next.find? t.id = some (threadFate projection ctx snap t)
  made : ∀ pane ∈ snap.panes, (threadOfPane projection pane).1 = none →
    ∃ i < snap.panes.length, next.find? (ctx.newId i) = some (createdThread ctx pane (ctx.newId i))
  only : ∀ k t, next.find? k = some t → (∃ s ∈ projection.threads, s.id = k) ∨
    ∃ pane ∈ snap.panes, (threadOfPane projection pane).1 = none ∧
      ∃ i < snap.panes.length, k = ctx.newId i ∧ t = createdThread ctx pane k

theorem goneFate_eq (h : t.paneId ∉ live) : closedFate ctx live t (missingFate ctx live t t) = goneFate ctx t := by
  unfold closedFate missingFate goneFate
  by_cases harchived : t.shelf = .archived
  · by_cases hclosed : t.archiveReason = some .user ∧ t.paneAlive ≠ some false
    · simp [harchived, hclosed, h]
    · -- A thread the ingest archived, or that is closed already, stays as it is.
      have hskip : t.shelf ≠ .archived ∨ t.archiveReason ≠ some .user ∨ t.paneAlive = some false ∨
          t.paneId ∈ live := by
        by_cases huser : t.archiveReason = some .user
        · exact .inr (.inr (.inl (by simpa [huser] using hclosed)))
        · exact .inr (.inl huser)
      rw [if_pos hskip, if_pos (.inl harchived), if_pos harchived, if_neg hclosed]
  · simp [harchived, h]

variable {snap : EngineSnapshot}

theorem find?_goneLoops {v : HerdWork} (hcoherent : projection.Coherent)
    (hlive : live = snap.panes.map (·.paneId)) (hloop : PaneLoop projection ctx snap.panes v)
    (hclaims : ClaimsListed projection live v) :
    let w := projection.threads.foldl (closedStep ctx live)
      (projection.threads.foldl (fun w t => (missingStep projection ctx live (w, []) t).1) v)
    (∀ t ∈ projection.threads, w.next.find? t.id = some (match snap.panes.find? (·.paneId = t.paneId) with
        | some pane => paneFate projection ctx pane t
        | none => goneFate ctx t)) ∧
      ∀ k, k ∉ projection.threads.map (·.id) → w.next.find? k = v.next.find? k := by
  intro w
  have hmissingStep : ∀ w, ClaimsListed projection live w → ∀ t ∈ projection.threads,
      ClaimsListed projection live (missingStep projection ctx live (w, []) t).1 ∧
        ∀ k, (missingStep projection ctx live (w, []) t).1.next.find? k =
          if k = t.id then (w.next.find? k).map (missingFate ctx live t) else w.next.find? k :=
    fun w hw t ht => ⟨(missingStep_work hw [] ht).1, (missingStep_work hw [] ht).2.2⟩
  have hmissingClaims : ClaimsListed projection live
      (projection.threads.foldl (fun w t => (missingStep projection ctx live (w, []) t).1) v) :=
    List.foldlRecOn _ _ hclaims fun w hw t ht => (hmissingStep w hw t ht).1
  obtain ⟨hmissing, hmissingElse⟩ := find?_foldl hcoherent.ids hmissingStep hclaims
  have hclosedStep : ∀ w, ClaimsListed projection live w → ∀ t ∈ projection.threads,
      ClaimsListed projection live (closedStep ctx live w t) ∧ ∀ k, (closedStep ctx live w t).next.find? k =
        if k = t.id then (w.next.find? k).map (closedFate ctx live t) else w.next.find? k :=
    fun w hw t ht => closedStep_work hw ht
  obtain ⟨hclosed, hclosedElse⟩ := find?_foldl hcoherent.ids hclosedStep hmissingClaims
  refine ⟨fun t ht => ?_, fun k hk => (hclosedElse k hk).trans (hmissingElse k hk)⟩
  rw [hclosed t ht, hmissing t ht, hloop.own t ht, Option.map_some, Option.map_some]
  unfold fateAfter
  cases hpane : snap.panes.find? (·.paneId = t.paneId) with
  | some pane =>
    have hmem : t.paneId ∈ live := by
      have heq : pane.paneId = t.paneId := by simpa using List.find?_some hpane
      exact hlive ▸ List.mem_map.mpr ⟨pane, List.mem_of_find?_eq_some hpane, heq⟩
    simp [closedFate, missingFate, hmem]
  | none =>
    have hnot : t.paneId ∉ live := by
      intro hmem
      rw [hlive] at hmem
      obtain ⟨pane, hpaneMem, heq⟩ := List.mem_map.mp hmem
      simpa [heq] using List.find?_eq_none.mp hpane pane hpaneMem
    rw [goneFate_eq hnot]

theorem find?_snoozeLoop (w : HerdWork) (k : String) :
    (w.next.rows.foldl (snoozeStep ctx) w).next.find? k = (w.next.find? k).map (snoozeFate ctx) := by
  have hstep : ∀ v : HerdWork, True → ∀ t ∈ w.next.rows, True ∧ ∀ k, (snoozeStep ctx v t).next.find? k =
      if k = t.id then (v.next.find? k).map (fun copy =>
        if t.shelf = .snoozed ∧ t.snoozedUntil.any (· ≤ ctx.now) then
          copy.reshelved .active none none ctx.now else copy) else v.next.find? k := by
    refine fun v _ t _ => ⟨trivial, fun k => ?_⟩
    unfold snoozeStep
    by_cases hdue : t.shelf = .snoozed ∧ t.snoozedUntil.any (· ≤ ctx.now) = true
    · simp only [if_pos hdue, HerdWork.find?_shelfActive]
      split_ifs with hk
      · rw [hk]
      · rfl
    · simp only [if_neg hdue, Option.map_id', ite_self]
  obtain ⟨hrows, helse⟩ := find?_foldl w.next.nodup hstep trivial
  cases hfind : w.next.find? k with
  | none =>
    rw [helse k, hfind]
    · rfl
    · intro hmem
      obtain ⟨t, ht, hid⟩ := List.mem_map.mp hmem
      exact Table.find?_eq_none_iff.mp hfind t ht hid
  | some t =>
    obtain ⟨ht, rfl⟩ := Table.find?_eq_some_iff.mp hfind
    rw [hrows t ht, hfind]
    rfl

theorem snoozeFate_createdThread (pane : AgentView) (id : String) :
    snoozeFate ctx (createdThread ctx pane id) = createdThread ctx pane id := by
  unfold snoozeFate
  rw [if_neg]
  rintro ⟨h, -⟩
  cases h

/-- After the loops every thread has met its fate, and a pane that had no thread has one. -/
theorem threadWork_fates (hcoherent : projection.Coherent)
    (hfresh : FreshIds ctx projection.threads snap.panes.length) (hpanes : (snap.panes.map (·.paneId)).Nodup) :
    ThreadFates projection ctx snap (threadWork projection ctx snap).1.next ∧ (threadWork projection ctx snap).2 =
        (projection.threads.filter (newlyMissing ctx (snap.panes.map (·.paneId)))).map (·.id) := by
  have hloop := PaneLoop.all hcoherent hfresh hpanes
  have hclaims : ClaimsListed projection (snap.panes.map (·.paneId))
      (snap.panes.foldl (paneStep projection ctx) (startWork projection)) := by
    intro t ht hid
    obtain ⟨s, hs, hsid, hpane⟩ := hloop.claimed t.id hid
    exact hcoherent.eq_of_id hs ht hsid ▸ hpane
  obtain ⟨hown, helse⟩ := find?_goneLoops hcoherent rfl hloop hclaims
  unfold threadWork
  simp only [missingLoop_eq hclaims]
  refine ⟨⟨fun t ht => ?_, fun pane hpane hnone => ?_, fun k t hk => ?_⟩, trivial⟩
  · rw [find?_snoozeLoop, hown t ht]
    rfl
  · obtain ⟨i, hi, hmade⟩ := hloop.made pane hpane hnone
    have hlt := hi.trans_le hloop.ids
    refine ⟨i, hlt, ?_⟩
    rw [find?_snoozeLoop, helse _ (hfresh i hlt).2.1, hmade, Option.map_some, snoozeFate_createdThread]
  · rw [find?_snoozeLoop] at hk
    obtain ⟨s, hs, rfl⟩ := Option.map_eq_some_iff.mp hk
    by_cases hold : k ∈ projection.threads.map (·.id)
    · obtain ⟨u, hu, rfl⟩ := List.mem_map.mp hold
      exact .inl ⟨u, hu, rfl⟩
    · rw [helse k hold] at hs
      rcases hloop.only k s hs with hold | ⟨pane, hpane, hnone, i, hi, rfl, rfl⟩
      · exact .inl hold
      · exact .inr ⟨pane, hpane, hnone, i, hi.trans_le hloop.ids, rfl, snoozeFate_createdThread _ _⟩

end

end Sightr
