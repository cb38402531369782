import Mathlib.Data.Prod.Lex
import Mathlib.Data.String.Basic
import Sightr.Client.Sidebar

/-!
# Where a thread dropped onto Pinned lands

`planSidebarDrop` of `web2/src/components/Sidebar.logic.ts` gives the moved thread a pin order halfway between its new
neighbours; `decide` takes it, or the order behind the last pin. Orders are rationals. Two neighbours with one order
leave no room between them.
-/

namespace Sightr.Client

open Keyed (Table)

/-! ### The drop -/

inductive SidebarSection
  | pinned | active | snoozed | settled
  deriving DecidableEq

/-- The verbs of a drop; `reorder` is a plan's alone. -/
inductive SidebarDropVerb
  | pin | unpin | settle | unsettle | wake | reorder
  deriving DecidableEq

inductive SidebarDropPlan
  | none
  | refusedSnooze
  | command (verb : SidebarDropVerb) (command : ShelfCommand)
  deriving DecidableEq

def resolveSidebarDropVerb (source target : SidebarSection) : Option SidebarDropVerb :=
  if target = source then none
  else match target, source with
    | .snoozed, _ => none
    | .pinned, _ => some .pin
    | .settled, _ => some .settle
    | .active, .pinned => some .unpin
    | .active, .settled => some .unsettle
    | .active, _ => some .wake

/-- The order between the neighbours' orders, where they leave one. -/
def orderBetween (index : Nat) : Option Rat → Option Rat → Option Rat
  | none, none => none
  | some before, none => some (before + 1)
  | none, some after => if index = 0 then some (after - 1) else none
  | some before, some after =>
    let mid := (before + after) / 2
    if before < mid ∧ mid < after then some mid else none

def planPinnedReorder (orderedIds : List String) (ordersById : String → Option Rat) (movedId : String) : Option Rat :=
  let index := orderedIds.idxOf movedId
  if orderedIds.length ≤ index then none
  else orderBetween index (if 0 < index then orderedIds[index - 1]?.bind ordersById else none)
    (orderedIds[index + 1]?.bind ordersById)

def planSidebarDrop (thread : ServerThread) (source target : SidebarSection) (pinnedOrderAfterDrop : List String)
    (pinOrders : String → Option Rat) : SidebarDropPlan :=
  match target with
  | .snoozed => if source = .snoozed then .none else .refusedSnooze
  | .pinned =>
    let pinOrder := planPinnedReorder pinnedOrderAfterDrop pinOrders thread.id
    if source = .pinned then
      if pinOrder = none ∨ pinOrder = thread.pinOrder then .none
      else .command .reorder (.pin thread.id pinOrder)
    else .command .pin (.pin thread.id pinOrder)
  | target =>
    match resolveSidebarDropVerb source target with
    | some .settle => .command .settle (.settle thread.id)
    | some .unpin => .command .unpin (.unpin thread.id)
    | some .unsettle => .command .unsettle (.unsettle thread.id)
    | some .wake => .command .wake (.unsnooze thread.id)
    | _ => .none

/-! ### The pinned list -/

abbrev Pins := Table (@ThreadOf.id AgentSessionRef)

variable {κ : Type} [LinearOrder κ] (collate : String → κ)

def orderOf (t : ServerThread) : WithTop Rat := t.pinOrder

/-- `comparePinned`; strings compare as `localeCompare` does, by a key of theirs. -/
def comparePinned (a b : ServerThread) : Ordering :=
  (compare (orderOf a) (orderOf b)).then
    ((compare (a.pinnedAt.getD 0) (b.pinnedAt.getD 0)).then (compare (collate a.id) (collate b.id)))

def sortPinned (pins : List ServerThread) : List ServerThread :=
  pins.insertionSort fun a b => (comparePinned collate a b).isLE

def afterEvent (moved : ServerThread) (pins : Pins) (event : EventDraft) : Pins :=
  match event.payload with
  | .threadShelfChanged .pinned snoozedUntil pinOrder at_ =>
    pins.set (moved.reshelved .pinned snoozedUntil pinOrder at_)
  | .threadShelfChanged .. | .threadArchived .. => pins.filter (·.id ≠ moved.id)
  | _ => pins

/-- The pins once the bridge has decided a command on a thread. -/
def afterCommand (pins : Pins) (moved : ServerThread) (maxPinOrder : Option Rat) (now : Int) (command : ShelfCommand) :
    Pins :=
  let state : DecideState := { thread := some moved, paneAlive := true, maxPinOrder }
  (decideCommand state now command.toCommand).events.foldl (afterEvent moved) pins

/-- The pins that commands lead to. Other events take a pin away, or leave it its shelf and its order. -/
inductive Reached : Pins → Prop
  | empty : Reached .empty
  | decided {pins : Pins} (h : Reached pins) (moved : ServerThread) (maxPinOrder : Option Rat) (now : Int)
      (command : ShelfCommand) : Reached (afterCommand pins moved maxPinOrder now command)
  | gone {pins : Pins} (h : Reached pins) (id : String) : Reached (pins.filter (·.id ≠ id))
  | patched {pins : Pins} (h : Reached pins) {t t' : ServerThread} (ht : t ∈ pins.rows) (hshelf : t'.shelf = t.shelf)
      (horder : t'.pinOrder = t.pinOrder) : Reached (pins.set t')

/-- The list is drawn in this order. -/
def Shows (pins : Pins) (order : List ServerThread) : Prop :=
  (sortPinned collate pins.rows).map (·.id) = order.map (·.id)

/-- Carried out, the plan puts the pins in this order; a plan to do nothing finds them in it. -/
def LandsAs (plan : SidebarDropPlan) (pins : Pins) (moved : ServerThread) (order : List ServerThread) : Prop :=
  match plan with
  | .command _ command => ∀ (maxPinOrder : Option Rat) (now : Int),
    (∀ t ∈ pins.rows, ∀ o ∈ t.pinOrder, ∃ max ∈ maxPinOrder, o ≤ max) →
      Shows collate (afterCommand pins moved maxPinOrder now command) order
  | _ => Shows collate pins order

/-- A thread is dropped between the pins before it and those behind it. -/
structure Drop (pins : Pins) (moved : ServerThread) (source : SidebarSection) (front back : List ServerThread) :
    Prop where
  reached : Reached pins
  from_ : if source = .pinned then moved ∈ pins.rows else moved.shelf ≠ .pinned ∧ moved.shelf ≠ .archived
  around : front ++ back = (sortPinned collate pins.rows).filter (·.id ≠ moved.id)

def dropPlan (pins : Pins) (moved : ServerThread) (source : SidebarSection) (front back : List ServerThread) :
    SidebarDropPlan :=
  planSidebarDrop moved source .pinned ((front ++ moved :: back).map (·.id)) fun id => (pins.find? id).bind (·.pinOrder)

/-- The neighbours have different orders. -/
def Room (front back : List ServerThread) : Prop :=
  ∀ before ∈ front.getLast?, ∀ after ∈ back.head?, before.pinOrder ≠ after.pinOrder

/-! ### The orders of the pins -/

theorem isSome_of_decide {state : DecideState} {now at_ : Int} {command : ShelfCommand} {draft : EventDraft}
    {snoozedUntil : Option Int} {order : Option Rat}
    (hdraft : draft ∈ (decideCommand state now command.toCommand).events)
    (hpay : draft.payload = .threadShelfChanged .pinned snoozedUntil order at_) : order.isSome = true := by
  have haccept {threadId : String} {payload : ServerPayload}
      (h : draft ∈ (Decision.accept threadId payload).events) :
      payload = .threadShelfChanged .pinned snoozedUntil order at_ := by
    rw [← hpay, List.mem_singleton.mp h]
  have hthread {id : String} {f : ServerThread → Decision} (h : draft ∈ (decideThread state id f).events) :
      ∃ thread, draft ∈ (f thread).events := by
    unfold decideThread at h
    split at h
    · cases h
    · split_ifs at h
      · cases h
      · exact ⟨_, h⟩
  cases command with
  | pin id wanted =>
    obtain ⟨thread, h⟩ := hthread hdraft
    cases wanted <;> simp only [Option.map_none, Option.map_some] at h <;> split_ifs at h <;>
      first | (cases h; done) | (cases haccept h; rfl)
  | rename id title =>
    obtain ⟨thread, h⟩ := hthread hdraft
    unfold checkName at h
    dsimp only at h
    split_ifs at h <;> dsimp only at h <;> first | (cases h; done) | cases haccept h
  | snooze id until_ =>
    obtain ⟨thread, h⟩ := hthread hdraft
    dsimp only at h
    split_ifs at h <;> first | (cases h; done) | cases haccept h
  | _ =>
    obtain ⟨thread, h⟩ := hthread hdraft
    try unfold leaveShelf at h
    try unfold markUnreadDone at h
    split_ifs at h <;> first | (cases h; done) | cases haccept h

theorem Reached.ordered {pins : Pins} (h : Reached pins) :
    ∀ t ∈ pins.rows, t.shelf = .pinned ∧ t.pinOrder.isSome = true := by
  induction h with
  | empty => exact fun t ht => absurd ht List.not_mem_nil
  | decided _ moved maxPinOrder now command ih =>
    unfold afterCommand
    dsimp only
    refine List.foldlRecOn (motive := fun pins : Pins => ∀ t ∈ pins.rows, t.shelf = .pinned ∧ t.pinOrder.isSome = true)
      _ _ ih fun pins hpins draft hdraft t ht => ?_
    unfold afterEvent at ht
    split at ht
    · rename_i hpay
      rcases Table.mem_set.mp ht with rfl | ⟨ht, -⟩
      · exact ⟨rfl, isSome_of_decide hdraft hpay⟩
      · exact hpins t ht
    · exact hpins t (List.mem_of_mem_filter ht)
    · exact hpins t (List.mem_of_mem_filter ht)
    · exact hpins t ht
  | gone _ id ih => exact fun t ht => ih t (List.mem_of_mem_filter ht)
  | patched _ ht hshelf horder ih =>
    intro u hu
    rcases Table.mem_set.mp hu with rfl | ⟨hu, -⟩
    · rw [hshelf, horder]
      exact ih _ ht
    · exact ih u hu

/-! ### Sorting -/

def pinKey (t : ServerThread) : WithTop Rat ×ₗ Int ×ₗ κ :=
  toLex (orderOf t, toLex (t.pinnedAt.getD 0, collate t.id))

variable {collate} {pins pins' : Pins} {moved : ServerThread} {source : SidebarSection}
  {front back : List ServerThread}

theorem isLE_comparePinned (a b : ServerThread) :
    (comparePinned collate a b).isLE = true ↔ pinKey collate a ≤ pinKey collate b := by
  have hid : (compare (collate a.id) (collate b.id)).isLE = true ↔ collate a.id ≤ collate b.id :=
    Ordering.isLE_iff_ne_gt.trans compare_le_iff_le
  simp only [comparePinned, pinKey, Prod.Lex.toLex_le_toLex, Ordering.isLE_then_iff_or, compare_lt_iff_lt,
    compare_eq_iff_eq, hid]

theorem pairwise_sortPinned (l : List ServerThread) :
    (sortPinned collate l).Pairwise (pinKey collate · ≤ pinKey collate ·) := by
  have htotal : Std.Total fun a b => (comparePinned collate a b).isLE = true :=
    ⟨fun a b => by simpa only [isLE_comparePinned] using le_total _ _⟩
  have htrans : IsTrans ServerThread fun a b => (comparePinned collate a b).isLE = true :=
    ⟨fun a b c => by simpa only [isLE_comparePinned] using le_trans⟩
  exact (List.pairwise_insertionSort _ l).imp fun h => (isLE_comparePinned _ _).mp h

theorem ids_sortPinned (hcollate : Function.Injective collate) {l order : List ServerThread} (hperm : order.Perm l)
    (hsorted : order.Pairwise (pinKey collate · ≤ pinKey collate ·)) :
    (sortPinned collate l).map (·.id) = order.map (·.id) := by
  have hkeys : (sortPinned collate l).map (pinKey collate) = order.map (pinKey collate) :=
    (((List.perm_insertionSort _ l).trans hperm.symm).map _).eq_of_pairwise' (List.pairwise_map.mpr
      (pairwise_sortPinned l)) (List.pairwise_map.mpr hsorted)
  have hids := congrArg (List.map fun k => (ofLex (ofLex k).2).2) hkeys
  rw [List.map_map, List.map_map] at hids
  refine (List.map_injective_iff.mpr hcollate) ?_
  rw [List.map_map, List.map_map]
  exact hids

section

variable (h : Drop collate pins moved source front back)
include h

theorem Drop.mem_around {t : ServerThread} : t ∈ front ++ back ↔ t ∈ pins.rows ∧ t.id ≠ moved.id := by
  rw [h.around]
  simp [sortPinned]

theorem Drop.pairwise : (front ++ back).Pairwise (pinKey collate · ≤ pinKey collate ·) := by
  rw [h.around]
  exact (pairwise_sortPinned _).filter _

/-- Put between the others, the moved thread is drawn between them. -/
theorem Drop.shows (hcollate : Function.Injective collate) (moved' : ServerThread) (hid : moved'.id = moved.id)
    (hrows : ∀ t, t ∈ pins'.rows ↔ t = moved' ∨ t ∈ pins.rows ∧ t.id ≠ moved.id)
    (hbefore : ∀ t ∈ front, orderOf t < orderOf moved') (hafter : ∀ t ∈ back, orderOf moved' < orderOf t) :
    Shows collate pins' (front ++ moved :: back) := by
  have hnodup : (moved' :: (front ++ back)).Nodup := by
    refine List.nodup_cons.mpr ⟨fun hmem => (h.mem_around.mp hmem).2 hid, ?_⟩
    rw [h.around]
    exact ((List.perm_insertionSort _ _).nodup_iff.mpr (pins.nodup.of_map _)).filter _
  have hperm : (front ++ moved' :: back).Perm pins'.rows := by
    refine List.perm_middle.trans ((List.perm_ext_iff_of_nodup hnodup (pins'.nodup.of_map _)).mpr fun t => ?_)
    rw [List.mem_cons, h.mem_around, hrows]
  have hle {a b : ServerThread} (hlt : orderOf a < orderOf b) : pinKey collate a ≤ pinKey collate b :=
    Prod.Lex.toLex_le_toLex.mpr (.inl hlt)
  obtain ⟨hfront, hback, hacross⟩ := List.pairwise_append.mp h.pairwise
  refine (ids_sortPinned hcollate hperm (List.pairwise_append.mpr ⟨hfront, List.pairwise_cons.mpr
    ⟨fun t ht => hle (hafter t ht), hback⟩, fun a ha b hb => ?_⟩)).trans (by simp [hid])
  rcases List.mem_cons.mp hb with rfl | hb
  · exact hle (hbefore a ha)
  · exact hacross a ha b hb

end

/-! ### The planned order -/

section

variable (h : Drop collate pins moved source front back)
include h

theorem Drop.orderOf_of_mem {t : ServerThread}
    (ht : t ∈ front ++ back) : ∃ order, t.pinOrder = some order ∧ (pins.find? t.id).bind (·.pinOrder) = some order := by
  have hmem := (h.mem_around.mp ht).1
  obtain ⟨order, horder⟩ := Option.isSome_iff_exists.mp (h.reached.ordered t hmem).2
  exact ⟨order, horder, by rw [Table.find?_key hmem, Option.bind_some, horder]⟩

theorem Drop.planPinnedReorder_eq :
    planPinnedReorder ((front ++ moved :: back).map (·.id)) (fun id => (pins.find? id).bind (·.pinOrder)) moved.id =
      orderBetween front.length (front.getLast?.bind (·.pinOrder)) (back.head?.bind (·.pinOrder)) := by
  have hindex : ((front ++ moved :: back).map (·.id)).idxOf moved.id = front.length := by
    have hnot : moved.id ∉ front.map (·.id) := by
      intro hmem
      obtain ⟨t, ht, hid⟩ := List.mem_map.mp hmem
      exact (h.mem_around.mp (List.mem_append_left _ ht)).2 hid
    rw [List.map_append, List.idxOf_append_of_notMem hnot, List.map_cons, List.idxOf_cons_self, List.length_map,
      Nat.add_zero]
  have hof (t : Option ServerThread) (ht : ∀ u ∈ t, u ∈ front ++ back) :
      (t.map (·.id)).bind (fun id => (pins.find? id).bind (·.pinOrder)) = t.bind (·.pinOrder) := by
    cases t with
    | none => rfl
    | some u =>
      obtain ⟨order, hown, hheld⟩ := h.orderOf_of_mem (ht u rfl)
      exact hheld.trans hown.symm
  unfold planPinnedReorder
  rw [hindex, if_neg (by simp)]
  congr 1
  · rw [← hof _ fun u hu => List.mem_append_left _ (List.mem_of_getLast? hu)]
    cases hlast : front.getLast? with
    | none => simp [List.getLast?_eq_none_iff.mp hlast]
    | some u =>
      have hpos := List.length_pos_of_mem (List.mem_of_getLast? hlast)
      rw [List.getLast?_eq_getElem?] at hlast
      rw [if_pos hpos, List.getElem?_map, List.getElem?_append_left (by omega), hlast]
  · rw [← hof _ fun u hu => List.mem_append_right _ (List.mem_of_head? hu), List.getElem?_map,
      List.getElem?_append_right (by omega)]
    simp [List.head?_eq_getElem?]

/-- Where the neighbours leave room, the planned order is above all in front and below all behind; none is planned
only for a thread that is alone. -/
theorem Drop.between (hroom : Room front back) (default : Rat) :
    let order : WithTop Rat := ((orderBetween front.length (front.getLast?.bind (·.pinOrder))
      (back.head?.bind (·.pinOrder))).getD default : Rat)
    (∀ t ∈ front, orderOf t < order) ∧ ∀ t ∈ back, order < orderOf t := by
  have hle {a b : ServerThread} (hab : pinKey collate a ≤ pinKey collate b) : orderOf a ≤ orderOf b :=
    (Prod.Lex.toLex_le_toLex.mp hab).elim le_of_lt fun heq => heq.1.le
  obtain ⟨hfront, hback, hacross⟩ := List.pairwise_append.mp h.pairwise
  have hlast {before : ServerThread} (hb : front.getLast? = some before) {t : ServerThread} (ht : t ∈ front) :
      orderOf t ≤ orderOf before := by
    obtain ⟨init, rfl⟩ := List.getLast?_eq_some_iff.mp hb
    rcases List.mem_append.mp ht with ht | ht
    · exact hle ((List.pairwise_append.mp hfront).2.2 t ht before List.mem_cons_self)
    · rw [List.mem_singleton.mp ht]
  have hhead {after : ServerThread} (ha : back.head? = some after) {t : ServerThread} (ht : t ∈ back) :
      orderOf after ≤ orderOf t := by
    obtain ⟨rest, rfl⟩ := List.head?_eq_some_iff.mp ha
    rcases List.mem_cons.mp ht with rfl | ht
    · exact le_rfl
    · exact hle ((List.pairwise_cons.mp hback).1 t ht)
  cases hb : front.getLast? with
  | none =>
    obtain rfl := List.getLast?_eq_none_iff.mp hb
    cases ha : back.head? with
    | none => simp [List.head?_eq_none_iff.mp ha]
    | some after =>
      obtain ⟨order, hafter, -⟩ := h.orderOf_of_mem (List.mem_of_head? ha)
      simp only [Option.bind_none, Option.bind_some, hafter, orderBetween, List.length_nil, if_true,
        Option.getD_some]
      refine ⟨by simp, fun t ht => lt_of_lt_of_le ?_ (hhead ha ht)⟩
      rw [orderOf, hafter]
      exact WithTop.coe_lt_coe.mpr (sub_one_lt order)
  | some before =>
    obtain ⟨low, hbefore, -⟩ := h.orderOf_of_mem (List.mem_append_left _ (List.mem_of_getLast? hb))
    have hlow : orderOf before = (low : WithTop Rat) := hbefore
    cases ha : back.head? with
    | none =>
      simp only [Option.bind_none, Option.bind_some, hbefore, orderBetween, Option.getD_some]
      refine ⟨fun t ht => lt_of_le_of_lt (hlast hb ht) ?_, by simp [List.head?_eq_none_iff.mp ha]⟩
      rw [hlow]
      exact WithTop.coe_lt_coe.mpr (lt_add_one low)
    | some after =>
      obtain ⟨high, hafter, -⟩ := h.orderOf_of_mem (List.mem_append_right _ (List.mem_of_head? ha))
      have hhigh : orderOf after = (high : WithTop Rat) := hafter
      have hlt : low < high := by
        refine lt_of_le_of_ne ?_ fun heq => hroom before hb after ha (by rw [hbefore, hafter, heq])
        have hboth := hle (hacross before (List.mem_of_getLast? hb) after (List.mem_of_head? ha))
        rwa [hlow, hhigh, WithTop.coe_le_coe] at hboth
      have hmid : low < (low + high) / 2 ∧ (low + high) / 2 < high := by constructor <;> linarith
      simp only [Option.bind_some, hbefore, hafter, orderBetween, hmid, and_self, if_true, Option.getD_some]
      refine ⟨fun t ht => lt_of_le_of_lt (hlast hb ht) ?_, fun t ht => lt_of_lt_of_le ?_ (hhead ha ht)⟩
      · rw [hlow]
        exact WithTop.coe_lt_coe.mpr hmid.1
      · rw [hhigh]
        exact WithTop.coe_lt_coe.mpr hmid.2

end

/-! ### Landing -/

theorem afterCommand_pin (maxPinOrder : Option Rat) (now : Int) {wanted : Option Rat} (hshelf : moved.shelf ≠ .archived)
    (hnew : moved.shelf = .pinned → wanted ≠ none ∧ wanted ≠ moved.pinOrder) :
    afterCommand pins moved maxPinOrder now (.pin moved.id wanted) =
      pins.set (moved.reshelved .pinned none (some (wanted.getD (maxPinOrder.getD 0 + 1))) now) := by
  cases wanted with
  | none =>
    have hout : moved.shelf ≠ .pinned := fun hin => (hnew hin).1 rfl
    simp [afterCommand, afterEvent, ShelfCommand.toCommand, decideCommand, decideThread, hshelf, hout, Decision.events,
      Decision.accept]
  | some order =>
    have hout : ¬(moved.shelf = .pinned ∧ moved.pinOrder = some order) := fun hin => (hnew hin.1).2 hin.2.symm
    simp [afterCommand, afterEvent, ShelfCommand.toCommand, decideCommand, decideThread, hshelf, hout, Decision.events,
      Decision.accept]

/-- Between neighbours with different orders, and at either end, a thread lands where it was dropped, and the plan is
to do nothing only where it stands there. Between two pins with one order there is no room: a thread of another
shelf lands behind the last pin, and a pinned one stays. -/
theorem drop_lands (hcollate : Function.Injective collate) (h : Drop collate pins moved source front back) :
    (Room front back → LandsAs collate (dropPlan pins moved source front back) pins moved (front ++ moved :: back)) ∧
    (¬Room front back → if source = .pinned then dropPlan pins moved source front back = .none
      else LandsAs collate (dropPlan pins moved source front back) pins moved (front ++ back ++ [moved])) := by
  unfold dropPlan planSidebarDrop
  rw [h.planPinnedReorder_eq]
  have hfrom := h.from_
  generalize hwanted : orderBetween front.length (front.getLast?.bind (·.pinOrder)) (back.head?.bind (·.pinOrder)) =
    wanted
  have hlands (hroom : Room front back) (hshelf : moved.shelf ≠ .archived)
      (hnew : moved.shelf = .pinned → wanted ≠ none ∧ wanted ≠ moved.pinOrder) (verb : SidebarDropVerb) :
      LandsAs collate (.command verb (.pin moved.id wanted)) pins moved (front ++ moved :: back) := by
    intro maxPinOrder now _
    obtain ⟨hbefore, hafter⟩ := h.between hroom (maxPinOrder.getD 0 + 1)
    rw [hwanted] at hbefore hafter
    rw [afterCommand_pin maxPinOrder now hshelf hnew]
    exact h.shows hcollate (moved.reshelved ..) rfl (fun t => Table.mem_set) hbefore hafter
  have hnone (hroom : ¬Room front back) : wanted = none := by
    simp only [Room, not_forall, not_not] at hroom
    obtain ⟨before, hb, after, ha, heq⟩ := hroom
    obtain ⟨order, horder, -⟩ := h.orderOf_of_mem (List.mem_append_left _ (List.mem_of_getLast? hb))
    rw [← hwanted, Option.mem_def.mp hb, Option.mem_def.mp ha, Option.bind_some, Option.bind_some, ← heq, horder]
    simp [orderBetween]
  by_cases hsource : source = .pinned
  · simp only [hsource, if_true] at hfrom ⊢
    obtain ⟨hpinned, hsome⟩ := h.reached.ordered moved hfrom
    obtain ⟨own, hown⟩ := Option.isSome_iff_exists.mp hsome
    refine ⟨fun hroom => ?_, fun hroom => ?_⟩
    · split_ifs with hstay
      · -- It stands where it was dropped.
        obtain ⟨hbefore, hafter⟩ := h.between hroom own
        have hsame : wanted.getD own = own := by
          rcases hstay with rfl | rfl
          · rfl
          · rw [hown, Option.getD_some]
        rw [hwanted, hsame] at hbefore hafter
        have horder : orderOf moved = (own : WithTop Rat) := hown
        refine h.shows hcollate moved rfl (fun t => ⟨fun ht => ?_, ?_⟩) (horder ▸ hbefore) (horder ▸ hafter)
        · by_cases hid : t.id = moved.id
          · exact .inl (pins.eq_of_key_eq ht hfrom hid)
          · exact .inr ⟨ht, hid⟩
        · rintro (rfl | ⟨ht, -⟩)
          · exact hfrom
          · exact ht
      · exact hlands hroom (by simp [hpinned]) (fun _ => not_or.mp hstay) .reorder
    · exact if_pos (.inl (hnone hroom))
  · simp only [hsource, if_false] at hfrom ⊢
    refine ⟨fun hroom => hlands hroom hfrom.2 (fun hin => absurd hin hfrom.1) .pin, fun hroom => ?_⟩
    intro maxPinOrder now hmax
    have hlast : Drop collate pins moved source (front ++ back) [] := { h with
      around := by rw [List.append_nil, h.around] }
    rw [hnone hroom, afterCommand_pin maxPinOrder now hfrom.2 fun hin => absurd hin hfrom.1]
    refine hlast.shows hcollate (moved.reshelved ..) rfl (fun t => Table.mem_set) (fun t ht => ?_) (by simp)
    obtain ⟨order, horder, -⟩ := h.orderOf_of_mem ht
    obtain ⟨max, rfl, hle⟩ := hmax t (h.mem_around.mp ht).1 order horder
    rw [orderOf, horder]
    exact WithTop.coe_lt_coe.mpr (hle.trans_lt (lt_add_one max))

def twoPins : Pins :=
  afterCommand (afterCommand .empty (testThread "a") none 1000 (.pin "a" (some 1))) (testThread "b") (some 1) 2000
    (.pin "b" (some 1))

def firstPin : ServerThread := (testThread "a").reshelved .pinned none (some 1) 1000

def secondPin : ServerThread := (testThread "b").reshelved .pinned none (some 1) 2000

theorem drop_twoPins : Drop id twoPins (testThread "c") .active [firstPin] [secondPin] where
  reached := .decided (.decided .empty ..) ..
  from_ := by decide
  around := by decide

/-- A third thread, dropped between them, lands behind them. -/
theorem drop_lands_twoPins : LandsAs id (dropPlan twoPins (testThread "c") .active [firstPin] [secondPin]) twoPins
    (testThread "c") [firstPin, secondPin, testThread "c"] :=
  (drop_lands Function.injective_id drop_twoPins).2 fun hroom => hroom firstPin rfl secondPin rfl rfl

theorem drop_misses_twoPins : ¬∀ (pins : Pins) (moved : ServerThread) (source : SidebarSection)
    (front back : List ServerThread), Drop (id : String → String) pins moved source front back →
      LandsAs id (dropPlan pins moved source front back) pins moved (front ++ moved :: back) := by
  intro h
  have hlands := h twoPins (testThread "c") .active [firstPin] [secondPin] drop_twoPins (some 1) 3000 (by decide)
  unfold Shows at hlands
  revert hlands
  decide +kernel

end Sightr.Client
