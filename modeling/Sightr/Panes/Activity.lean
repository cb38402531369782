import Mathlib.Data.List.Dedup
import Sightr.Herd.Diff
import Sightr.Lib.Runs

/-!
# The activity ledger

`ActivityLedger` of `bridge/activity.ts`: when a pane's agent last moved and when the pane was last looked at, in two
time stamps that also say whether it is unread. Changes are written to a file behind a debounce timer, one write after
another; a write takes the entries as they are when it begins.
-/

namespace Sightr

open Keyed (Table)

/-! ### The ledger -/

deriving instance DecidableEq for PaneActivity

def PaneActivity.unread (e : PaneActivity) : Bool := e.seenAt < e.activeAt

/-- An entry with its session and its pane, the keys of the two maps. -/
structure ActivityRow where
  session : String
  paneId : String
  activity : PaneActivity
  deriving DecidableEq

def ActivityRow.key (r : ActivityRow) : String × String := (r.session, r.paneId)

/-- A call, with the session and the panes it is about. -/
inductive ActivityCall
  | ensure (session paneId : String)
  | noteActive (session paneId : String)
  | noteSeen (session paneId : String)
  | noteUnseen (session paneId : String)
  | forget (session paneId : String)
  | reconcile (session : String) (live : List String)

def ActivityCall.live : ActivityCall → List String
  | .reconcile _ live => live
  | _ => []

structure ActivityLedger where
  panes : Table ActivityRow.key := .empty
  dirty : Bool := false
  timer : Bool := false

namespace ActivityLedger

def SEEN_REFRESH_MS : Int := 30000

variable (l : ActivityLedger) (session paneId : String) (t : Int)

def get : Option PaneActivity := (l.panes.find? (session, paneId)).map (·.activity)

def put (activity : PaneActivity) : ActivityLedger where
  panes := l.panes.set ⟨session, paneId, activity⟩
  dirty := true
  timer := true

def ensure : ActivityLedger :=
  if (l.get session paneId).isSome then l else l.put session paneId ⟨t, t⟩

def noteActive : ActivityLedger := l.put session paneId ⟨t, ((l.get session paneId).map (·.seenAt)).getD t⟩

def noteSeen : Bool × ActivityLedger :=
  match l.get session paneId with
  | some prev =>
    if prev.activeAt ≤ prev.seenAt ∧ t - prev.seenAt < SEEN_REFRESH_MS then (false, l)
    else (true, l.put session paneId ⟨prev.activeAt, t⟩)
  | none => (true, l.put session paneId ⟨t, t⟩)

def noteUnseen : Bool × ActivityLedger :=
  match l.get session paneId with
  | some prev =>
    if prev.unread then (false, l) else (true, l.put session paneId ⟨prev.activeAt, prev.activeAt - 1⟩)
  | none => (true, l.put session paneId ⟨t, t - 1⟩)

def forget : ActivityLedger :=
  if (l.get session paneId).isSome then
    { panes := l.panes.filter fun r => r.key ≠ (session, paneId), dirty := true, timer := true }
  else l

/-- `now` is what the clock says when a pane is seeded. -/
def reconcile (live : List String) (now : String → Int) : ActivityLedger :=
  let l := live.dedup.foldl (fun l paneId => l.ensure session paneId (now paneId)) l
  ((l.panes.rows.filter (·.session = session)).map (·.paneId)).foldl
    (fun l paneId => if paneId ∈ live then l else l.forget session paneId) l

def take (now : String → Int) : ActivityCall → ActivityLedger
  | .ensure session paneId => l.ensure session paneId t
  | .noteActive session paneId => l.noteActive session paneId t
  | .noteSeen session paneId => (l.noteSeen session paneId t).2
  | .noteUnseen session paneId => (l.noteUnseen session paneId t).2
  | .forget session paneId => l.forget session paneId
  | .reconcile session live => l.reconcile session live now

/-! ### What a call does to each entry -/

variable {l session paneId t} {session' paneId' : String} {activity : PaneActivity}

theorem get_put : (l.put session paneId activity).get session' paneId' =
    if session = session' ∧ paneId = paneId' then some activity else l.get session' paneId' := by
  rw [get, put, Table.find?_set]
  simp only [ActivityRow.key, Prod.mk.injEq]
  split_ifs <;> rfl

theorem get_ensure : (l.ensure session paneId t).get session' paneId' =
    if session = session' ∧ paneId = paneId' then some ((l.get session' paneId').getD ⟨t, t⟩)
    else l.get session' paneId' := by
  unfold ensure
  split_ifs with hknown h h
  · obtain ⟨rfl, rfl⟩ := h
    obtain ⟨e, he⟩ := Option.isSome_iff_exists.mp hknown
    rw [he, Option.getD_some]
  · rfl
  · obtain ⟨rfl, rfl⟩ := h
    rw [get_put, if_pos ⟨rfl, rfl⟩, Option.not_isSome_iff_eq_none.mp hknown, Option.getD_none]
  · rw [get_put, if_neg h]

theorem get_forget : (l.forget session paneId).get session' paneId' =
    if session = session' ∧ paneId = paneId' then none else l.get session' paneId' := by
  unfold forget
  split_ifs with hknown h h
  · obtain ⟨rfl, rfl⟩ := h
    rw [get, Table.find?_filter]
    cases hrow : l.panes.find? (session, paneId) with
    | none => rfl
    | some r => simp [Table.key_of_find? hrow]
  · rw [get, get, Table.find?_filter]
    cases hrow : l.panes.find? (session', paneId') with
    | none => rfl
    | some r =>
      rw [Option.filter_some_pos]
      rw [Table.key_of_find? hrow]
      exact decide_eq_true fun heq => h ⟨(Prod.mk.inj heq).1.symm, (Prod.mk.inj heq).2.symm⟩
  · obtain ⟨rfl, rfl⟩ := h
    exact Option.not_isSome_iff_eq_none.mp hknown
  · rfl

theorem get_foldl_ensure (now : String → Int) (ids : List String) (l : ActivityLedger) :
    (ids.foldl (fun l paneId => l.ensure session paneId (now paneId)) l).get session' paneId' =
      if session = session' ∧ paneId' ∈ ids then some ((l.get session' paneId').getD ⟨now paneId', now paneId'⟩)
      else l.get session' paneId' := by
  induction ids generalizing l with
  | nil => simp
  | cons id ids ih =>
    rw [List.foldl_cons, ih, get_ensure]
    by_cases hs : session = session'
    · by_cases hid : id = paneId'
      · subst hid
        simp [hs]
      · simp [hs, hid, Ne.symm hid]
    · simp [hs]

theorem get_foldl_forget {live : List String} (ids : List String) (l : ActivityLedger) :
    (ids.foldl (fun l paneId => if paneId ∈ live then l else l.forget session paneId) l).get session' paneId' =
      if session = session' ∧ paneId' ∈ ids ∧ paneId' ∉ live then none else l.get session' paneId' := by
  induction ids generalizing l with
  | nil => simp
  | cons id ids ih =>
    rw [List.foldl_cons, ih]
    by_cases hid : id = paneId'
    · subst hid
      by_cases hlive : id ∈ live
      · simp [hlive]
      · simp [hlive, get_forget]
        grind
    · split_ifs <;> simp_all [get_forget]

/-- After a reconcile the session has the live panes, those it knew as they were. -/
theorem get_reconcile (live : List String) (now : String → Int) :
    (l.reconcile session live now).get session' paneId' = if session = session' then
        if paneId' ∈ live then some ((l.get session' paneId').getD ⟨now paneId', now paneId'⟩) else none
      else l.get session' paneId' := by
  simp only [reconcile, get_foldl_forget, get_foldl_ensure, List.mem_dedup]
  by_cases hs : session = session'
  · subst hs
    by_cases hlive : paneId' ∈ live
    · simp [hlive]
    · rw [if_pos rfl, if_neg hlive]
      split_ifs with hrow hfound
      · rfl
      · exact absurd hfound.2 hlive
      · by_contra hknown
        refine hrow ⟨rfl, ?_, hlive⟩
        obtain ⟨activity, hget⟩ := Option.ne_none_iff_exists'.mp hknown
        have hboth := @get_foldl_ensure session session paneId' now live.dedup l
        rw [if_neg (by simp [hlive]), hget] at hboth
        obtain ⟨r, hr, -⟩ := Option.map_eq_some_iff.mp hboth
        obtain ⟨hmem, hkey⟩ := Table.find?_eq_some_iff.mp hr
        obtain ⟨hsession, hpane⟩ := Prod.mk.inj hkey
        exact List.mem_map.mpr ⟨r, List.mem_filter.mpr ⟨hmem, by simpa using hsession⟩, hpane⟩
  · simp [hs]

end ActivityLedger

/-! ### The past -/

/-- Whether the pane is known, and then whether something happened after the last look: a mark, or an activity other
than the call that first sighted the pane. The latest call comes first. -/
def happened (session paneId : String) : List ActivityCall → Option Bool
  | [] => none
  | call :: past =>
    let before := happened session paneId past
    match call with
    | .ensure s p => if s = session ∧ p = paneId then some (before.getD false) else before
    | .noteActive s p => if s = session ∧ p = paneId then some before.isSome else before
    | .noteSeen s p => if s = session ∧ p = paneId then some false else before
    | .noteUnseen s p => if s = session ∧ p = paneId then some true else before
    | .forget s p => if s = session ∧ p = paneId then none else before
    | .reconcile s live =>
      if s = session then if paneId ∈ live then some (before.getD false) else none else before

/-- An entry says what happened, and none of its stamps is in the future. -/
structure Stands (clock : Int) (happened : Option Bool) (e : Option PaneActivity) : Prop where
  unread : e.map (·.unread) = happened
  past : ∀ a ∈ e, a.activeAt ≤ clock ∧ a.seenAt ≤ clock

section

variable {clock t u : Int} {b : Option Bool} {e : Option PaneActivity} {a : PaneActivity}

theorem Stands.later (h : Stands clock b e) (ht : clock ≤ t) : Stands t b e :=
  ⟨h.unread, fun a ha => ⟨Int.le_trans (h.past a ha).1 ht, Int.le_trans (h.past a ha).2 ht⟩⟩

theorem stands_none : Stands t none none := ⟨rfl, fun _ ha => by cases ha⟩

theorem stands_some {unread : Bool} (hunread : a.unread = unread) (hactive : a.activeAt ≤ t) (hseen : a.seenAt ≤ t) :
    Stands t (some unread) (some a) :=
  ⟨congrArg some hunread, fun _ ha => Option.mem_some.mp ha ▸ ⟨hactive, hseen⟩⟩

theorem Stands.seed (h : Stands clock b e) (hu : u ≤ t) (ht : clock ≤ t) :
    Stands t (some (b.getD false)) (some (e.getD ⟨u, u⟩)) := by
  obtain ⟨rfl, hpast⟩ := h
  cases e with
  | none => exact stands_some (decide_eq_false (Int.lt_irrefl u)) hu hu
  | some a => exact stands_some rfl (Int.le_trans (hpast a rfl).1 ht) (Int.le_trans (hpast a rfl).2 ht)

end

/-! ### The file -/

/-- The ledger with its file and the writes behind it. -/
structure ActivityWorld where
  ledger : ActivityLedger := {}
  clock : Int := 0
  queued : Nat := 0
  running : Option (Table ActivityRow.key) := none
  file : Table ActivityRow.key := .empty
  calls : List ActivityCall := []

namespace ActivityWorld

open ActivityLedger

inductive Action
  /-- The clock says `at_`; a reconcile reads it for each pane it seeds. -/
  | call (c : ActivityCall) (at_ : Int) (now : String → Int)
  /-- The timer runs out, or the bridge shuts down. -/
  | flush
  | beginWrite
  | endWrite

def step (w : ActivityWorld) : Action → Option ActivityWorld
  | .call c at_ now =>
    if w.clock ≤ at_ ∧ ∀ p ∈ c.live, w.clock ≤ now p ∧ now p ≤ at_ then
      some { w with ledger := w.ledger.take at_ now c, clock := at_, calls := c :: w.calls }
    else none
  | .flush => some { w with
      ledger := { w.ledger with dirty := false, timer := false }
      queued := if w.ledger.dirty then w.queued + 1 else w.queued }
  | .beginWrite =>
    if 0 < w.queued ∧ w.running = none then
      some { w with queued := w.queued - 1, running := some w.ledger.panes }
    else none
  | .endWrite => w.running.map fun panes => { w with running := none, file := panes }

/-- A known pane that is read becomes active only after the millisecond it was seen in. -/
def Ticking (w : ActivityWorld) : Action → Prop
  | .call (.noteActive session paneId) at_ _ =>
    ∀ a ∈ w.ledger.get session paneId, a.unread = false → a.seenAt < at_
  | _ => True

/-- Entries stand, and what the file lacks is still to be written. -/
structure Sound (w : ActivityWorld) : Prop where
  stands : ∀ session paneId, Stands w.clock (happened session paneId w.calls) (w.ledger.get session paneId)
  written : w.ledger.dirty = true ∨ 0 < w.queued ∨ w.running.getD w.file = w.ledger.panes
  timed : w.ledger.dirty = true → w.ledger.timer = true

variable {w w' : ActivityWorld} {at_ : Int} {now : String → Int} {c : ActivityCall} {session paneId : String}

theorem stands_noteActive (h : Stands w.clock (happened session paneId w.calls) (w.ledger.get session paneId))
    (hat : w.clock ≤ at_) (htick : ∀ a ∈ w.ledger.get session paneId, a.unread = false → a.seenAt < at_) :
    Stands at_ (some (happened session paneId w.calls).isSome)
      (some ⟨at_, ((w.ledger.get session paneId).map (·.seenAt)).getD at_⟩) := by
  obtain ⟨hunread, hpast⟩ := h
  rw [← hunread]
  cases hget : w.ledger.get session paneId with
  | none => exact stands_some (decide_eq_false (Int.lt_irrefl _)) (Int.le_refl _) (Int.le_refl _)
  | some a =>
    obtain ⟨hactive, hseen⟩ := hpast a hget
    have hlt : a.seenAt < at_ := by
      cases hread : a.unread with
      | false => exact htick a hget hread
      | true => exact Int.lt_of_lt_of_le (of_decide_eq_true hread) (Int.le_trans hactive hat)
    exact stands_some (decide_eq_true hlt) (Int.le_refl _) (Int.le_of_lt hlt)

/-- The pane's entry is read or unread as said, and the others are as they were. -/
def Marks (l l' : ActivityLedger) (session paneId : String) (t : Int) (unread : Bool) : Prop :=
  ∃ a, (∀ s p, l'.get s p = if session = s ∧ paneId = p then some a else l.get s p) ∧
    a.unread = unread ∧ a.activeAt ≤ t ∧ a.seenAt ≤ t

section

variable {l : ActivityLedger} {t : Int} {a : PaneActivity} {unread : Bool}

theorem marks_same (hget : l.get session paneId = some a) (hunread : a.unread = unread)
    (hpast : a.activeAt ≤ t ∧ a.seenAt ≤ t) : Marks l l session paneId t unread := by
  refine ⟨a, fun s p => ?_, hunread, hpast⟩
  split_ifs with hsame
  · obtain ⟨rfl, rfl⟩ := hsame
    exact hget
  · rfl

section

variable (hpast : ∀ a ∈ l.get session paneId, a.activeAt ≤ t ∧ a.seenAt ≤ t)
include hpast

theorem marks_noteSeen : Marks l (l.noteSeen session paneId t).2 session paneId t false := by
  unfold noteSeen
  cases hget : l.get session paneId with
  | none => exact ⟨⟨t, t⟩, fun _ _ => get_put, decide_eq_false (Int.lt_irrefl t), Int.le_refl t, Int.le_refl t⟩
  | some prev =>
    have hprev := hpast prev hget
    dsimp only
    split_ifs with hread
    · exact marks_same hget (decide_eq_false (Int.not_lt.mpr hread.1)) hprev
    · exact ⟨⟨prev.activeAt, t⟩, fun _ _ => get_put, decide_eq_false (Int.not_lt.mpr hprev.1), hprev.1, Int.le_refl t⟩

theorem marks_noteUnseen : Marks l (l.noteUnseen session paneId t).2 session paneId t true := by
  have hbefore (n : Int) : n - 1 < n := by omega
  unfold noteUnseen
  cases hget : l.get session paneId with
  | none =>
    exact ⟨⟨t, t - 1⟩, fun _ _ => get_put, decide_eq_true (hbefore t), Int.le_refl t, Int.le_of_lt (hbefore t)⟩
  | some prev =>
    have hprev := hpast prev hget
    dsimp only
    split_ifs with hunread
    · exact marks_same hget hunread hprev
    · exact ⟨⟨prev.activeAt, prev.activeAt - 1⟩, fun _ _ => get_put, decide_eq_true (hbefore _), hprev.1,
        Int.le_trans (Int.le_of_lt (hbefore _)) hprev.1⟩

end

end

theorem Sound.stands_call (h : w.Sound) (hat : w.clock ≤ at_) (hnow : ∀ p ∈ c.live, w.clock ≤ now p ∧ now p ≤ at_)
    (htick : w.Ticking (.call c at_ now)) (s p : String) :
    Stands at_ (happened s p (c :: w.calls)) ((w.ledger.take at_ now c).get s p) := by
  have hlater (s p : String) := (h.stands s p).later hat
  cases c with
  | ensure session paneId =>
    simp only [happened, take, get_ensure]
    split_ifs with hsame
    · exact (h.stands s p).seed (Int.le_refl at_) hat
    · exact hlater s p
  | noteActive session paneId =>
    simp only [happened, take, noteActive, get_put]
    split_ifs with hsame
    · obtain ⟨rfl, rfl⟩ := hsame
      exact stands_noteActive (h.stands session paneId) hat htick
    · exact hlater s p
  | noteSeen session paneId =>
    obtain ⟨a, hget, hread, hactive, hseen⟩ := marks_noteSeen (hlater session paneId).past
    simp only [happened, take, hget]
    split_ifs
    · exact stands_some hread hactive hseen
    · exact hlater s p
  | noteUnseen session paneId =>
    obtain ⟨a, hget, hunread, hactive, hseen⟩ := marks_noteUnseen (hlater session paneId).past
    simp only [happened, take, hget]
    split_ifs
    · exact stands_some hunread hactive hseen
    · exact hlater s p
  | forget session paneId =>
    simp only [happened, take, get_forget]
    split_ifs
    · exact stands_none
    · exact hlater s p
  | reconcile session live =>
    simp only [happened, take, get_reconcile]
    split_ifs with hsame hlive
    · exact (h.stands s p).seed (hnow p hlive).2 hat
    · exact stands_none
    · exact hlater s p

/-- A call either leaves the entries as they are, or marks the ledger dirty and sets the timer. -/
def Touched (l l' : ActivityLedger) : Prop := l' = l ∨ l'.dirty = true ∧ l'.timer = true

theorem touched_trans {l m l' : ActivityLedger} (h : Touched l m) (h' : Touched m l') : Touched l l' := by
  rcases h' with rfl | hdirty
  · exact h
  · exact .inr hdirty

theorem touched_take (l : ActivityLedger) (c : ActivityCall) : Touched l (l.take at_ now c) := by
  have hensure (l : ActivityLedger) (session paneId : String) (t : Int) : Touched l (l.ensure session paneId t) := by
    unfold ensure
    split_ifs
    · exact .inl rfl
    · exact .inr ⟨rfl, rfl⟩
  have hforget (l : ActivityLedger) (session paneId : String) : Touched l (l.forget session paneId) := by
    unfold forget
    split_ifs
    · exact .inr ⟨rfl, rfl⟩
    · exact .inl rfl
  have hfold {f : ActivityLedger → String → ActivityLedger} (hf : ∀ l id, Touched l (f l id)) (ids : List String)
      (l : ActivityLedger) : Touched l (ids.foldl f l) := by
    induction ids generalizing l with
    | nil => exact .inl rfl
    | cons id ids ih => exact touched_trans (hf l id) (ih _)
  cases c with
  | ensure session paneId => exact hensure ..
  | noteActive session paneId => exact .inr ⟨rfl, rfl⟩
  | noteSeen session paneId =>
    simp only [take, noteSeen]
    split
    · split_ifs
      · exact .inl rfl
      · exact .inr ⟨rfl, rfl⟩
    · exact .inr ⟨rfl, rfl⟩
  | noteUnseen session paneId =>
    simp only [take, noteUnseen]
    split
    · split_ifs
      · exact .inl rfl
      · exact .inr ⟨rfl, rfl⟩
    · exact .inr ⟨rfl, rfl⟩
  | forget session paneId => exact hforget ..
  | reconcile session live =>
    refine touched_trans (hfold (fun l id => hensure l session id _) live.dedup l) (hfold (fun l id => ?_) _ _)
    split_ifs
    · exact .inl rfl
    · exact hforget ..

theorem Sound.step {a : Action} (h : w.Sound) (htick : w.Ticking a) (hstep : w.step a = some w') : w'.Sound := by
  cases a with
  | call c at_ now =>
    rw [ActivityWorld.step] at hstep
    split_ifs at hstep with hclock
    cases hstep
    have hstands := h.stands_call hclock.1 hclock.2 htick
    rcases @touched_take at_ now w.ledger c with heq | ⟨hdirty, htimer⟩
    · rw [heq] at hstands ⊢
      exact ⟨hstands, h.written, h.timed⟩
    · exact ⟨hstands, .inl hdirty, fun _ => htimer⟩
  | flush =>
    cases hstep
    refine ⟨h.stands, .inr ?_, fun hdirty => by cases hdirty⟩
    rcases h.written with hdirty | hrest
    · exact .inl (by simp [hdirty])
    · refine hrest.imp_left fun hqueued => ?_
      dsimp only
      split_ifs <;> omega
  | beginWrite =>
    rw [ActivityWorld.step] at hstep
    split_ifs at hstep
    cases hstep
    exact ⟨h.stands, .inr (.inr rfl), h.timed⟩
  | endWrite =>
    obtain ⟨panes, hrunning, rfl⟩ := Option.map_eq_some_iff.mp hstep
    refine ⟨h.stands, ?_, h.timed⟩
    have hwritten := h.written
    rw [hrunning] at hwritten
    exact hwritten

theorem noteSeen_eq_false_iff {l : ActivityLedger} {t : Int} : (l.noteSeen session paneId t).1 = false ↔
    (l.noteSeen session paneId t).2.panes = l.panes ∧ ∃ a, l.get session paneId = some a ∧ a.unread = false := by
  have hput {a : PaneActivity} (h : (l.put session paneId a).panes = l.panes) : l.get session paneId = some a := by
    have hsame : (l.put session paneId a).get session paneId = l.get session paneId :=
      congrArg (fun panes => (panes.find? (session, paneId)).map (·.activity)) h
    rw [← hsame, get_put, if_pos ⟨rfl, rfl⟩]
  unfold noteSeen
  split
  · rename_i prev hget
    split_ifs with hread
    · exact iff_of_true rfl ⟨rfl, prev, hget, decide_eq_false (Int.not_lt.mpr hread.1)⟩
    · refine iff_of_false (by simp) ?_
      rintro ⟨hsame, a, ha, hunread⟩
      have hseen := Option.some.inj (hget.symm.trans (hput hsame))
      cases hget.symm.trans ha
      refine hread ⟨Int.not_lt.mp (of_decide_eq_false hunread), ?_⟩
      have hstamp : prev.seenAt = t := congrArg PaneActivity.seenAt hseen
      rw [hstamp, Int.sub_self]
      decide
  · rename_i hget
    refine iff_of_false (by simp) ?_
    rintro ⟨-, a, ha, -⟩
    cases hget.symm.trans ha

/-- Where the clock moves between a look and the pane's next activity, a known pane is unread exactly when something
happened after the last look; a look says no exactly when it changed nothing on a read pane; a reconcile leaves the
live panes; and with no flush pending and no write under way the file is the memory. -/
theorem unread_of_ticking (h : Runs.Run step Ticking {} w) :
    (∀ session paneId, (w.ledger.get session paneId).map (·.unread) = happened session paneId w.calls) ∧
    (∀ session paneId t, (w.ledger.noteSeen session paneId t).1 = false ↔
      (w.ledger.noteSeen session paneId t).2.panes = w.ledger.panes ∧
        ∃ a, w.ledger.get session paneId = some a ∧ a.unread = false) ∧
    (∀ session live now paneId, ((w.ledger.reconcile session live now).get session paneId).isSome = true ↔
      paneId ∈ live) ∧
    (w.ledger.timer = false → w.queued = 0 → w.running = none → w.file = w.ledger.panes) := by
  have hsound : w.Sound := h.invariant (P := Sound) (fun _ _ _ hm htick hstep => hm.step htick hstep)
    ⟨fun _ _ => stands_none, .inr (.inr rfl), fun hdirty => by cases hdirty⟩
  refine ⟨fun session paneId => (hsound.stands session paneId).unread, fun _ _ _ => noteSeen_eq_false_iff,
    fun session live now paneId => ?_, fun htimer hqueued hrunning => ?_⟩
  · rw [get_reconcile, if_pos rfl]
    split_ifs with hlive <;> simp [hlive]
  · rcases hsound.written with hdirty | hrest | hfile
    · cases htimer.symm.trans (hsound.timed hdirty)
    · omega
    · rwa [hrunning] at hfile

instance (w : ActivityWorld) (a : Action) : Decidable (w.Ticking a) :=
  match a with
  | .call (.noteActive session paneId) at_ _ =>
    inferInstanceAs (Decidable (∀ a ∈ w.ledger.get session paneId, a.unread = false → a.seenAt < at_))
  | .call (.ensure ..) .. | .call (.noteSeen ..) .. | .call (.noteUnseen ..) .. | .call (.forget ..) ..
  | .call (.reconcile ..) .. | .flush | .beginWrite | .endWrite => .isTrue trivial

/-- A pane that moved a millisecond after the look. -/
theorem unread_of_ticking_moved : ∃ w : ActivityWorld, w.calls.length = 2 ∧
    happened "s" "p" w.calls = some true ∧ w.file = w.ledger.panes := by
  have hexec : (Runs.exec step Ticking {} [.call (.noteSeen "s" "p") 1 fun _ => 1,
      .call (.noteActive "s" "p") 2 fun _ => 2, .flush, .beginWrite, .endWrite]).any (fun w =>
        decide (w.calls.length = 2 ∧ ((w.ledger.get "s" "p").map (·.unread)) = some true ∧
          w.ledger.timer = false ∧ w.queued = 0 ∧ w.running = none)) = true := by
    decide +kernel
  obtain ⟨w, hrun, hw⟩ := Runs.exists_run_of_exec hexec
  obtain ⟨hcalls, hunread, htimer, hqueued, hrunning⟩ := of_decide_eq_true hw
  obtain ⟨hhappened, -, -, hfile⟩ := unread_of_ticking hrun
  exact ⟨w, hcalls, (hhappened "s" "p").symm.trans hunread, hfile htimer hqueued hrunning⟩

/-- An activity in the millisecond of the look leaves the pane read. -/
theorem same_millisecond_lost : ¬∀ w, Runs.Run step (fun _ _ => True) {} w → ∀ session paneId,
    (w.ledger.get session paneId).map (·.unread) = happened session paneId w.calls := by
  intro h
  have hexec : (Runs.exec step (fun _ _ => True) {} [.call (.noteSeen "s" "p") 1 fun _ => 1,
      .call (.noteActive "s" "p") 1 fun _ => 1]).any (fun w => decide
        ((w.ledger.get "s" "p").map (·.unread) ≠ happened "s" "p" w.calls)) = true := by
    decide +kernel
  obtain ⟨w, hrun, hw⟩ := Runs.exists_run_of_exec hexec
  exact of_decide_eq_true hw (h w hrun "s" "p")

end ActivityWorld

end Sightr
