import Sightr.Herd.Poker

/-!
# Rejected subscriptions

What the keeper of the event stream drops when its server refuses a subscription. A reason is free text: it names a
type where the type occurs in it, and a pane where the pane's id occurs outside every longer id. All agent panes share
one type, so the keeper takes the first of them for the refused one.
-/

namespace Sightr

open JsText

/-! ### Reasons -/

def occursAt (part text : List Char) (i : Nat) : Bool := startsWith part (text.drop i)

/-- The pane's id occurs in the reason at a place that is not inside a longer id of another pane. -/
def namesPane (panes : List String) (reason id : String) : Bool :=
  (List.range (reason.toList.length + 1)).any fun i => occursAt id.toList reason.toList i &&
    panes.all fun other => other == id || (List.range (i + 1)).all fun j =>
      !(occursAt other.toList reason.toList j && i + id.toList.length ≤ j + other.toList.length)

/-- The reason names the subscription and no other one: no other type, and for a pane no other agent pane. -/
structure NamesOnly (panes : List String) (reason : String) (s : Subscription) : Prop where
  type_iff : ∀ type ∈ AGENT_STATUS_CHANGED :: GLOBAL_SUBSCRIPTIONS, hasPart reason type = true ↔ type = s.type
  pane_iff : s.type = AGENT_STATUS_CHANGED → ∀ id ∈ panes, namesPane panes reason id = true ↔ s.paneId = some id

theorem cut_isSome_of_occursAt {part text : List Char} {i : Nat} (h : occursAt part text i = true) :
    (cut part text).isSome = true := by
  induction text generalizing i with
  | nil =>
    have hpart : part = [] := by
      rw [occursAt, List.drop_nil] at h
      exact List.prefix_nil.mp (List.isPrefixOf_iff_prefix.mp h)
    subst hpart
    rfl
  | cons c text ih =>
    rw [cut]
    split_ifs with hstart
    · rfl
    · cases i with
      | zero => exact absurd h hstart
      | succ i =>
        rw [Option.isSome_map]
        exact ih h

variable {panes : List String} {reason : String}

theorem hasPart_of_namesPane {id : String} (h : namesPane panes reason id = true) : hasPart reason id = true := by
  obtain ⟨i, -, hi⟩ := List.any_eq_true.mp h
  exact cut_isSome_of_occursAt (Bool.and_eq_true _ _ ▸ hi).1

/-! ### The subscription that is taken -/

variable {type : String}

/-- Of the subscriptions with the one type that the reason names, the first is taken. -/
theorem rejectedOf_eq_find? {subs : List Subscription} (h : ∀ s ∈ subs, hasPart reason s.type = true ↔ s.type = type) :
    rejectedOf reason subs = subs.find? (·.type = type) := by
  have hkeep (found : Subscription) (hfound : found.type = type) (rest : List Subscription)
      (hrest : ∀ s ∈ rest, hasPart reason s.type = true ↔ s.type = type) :
      rest.foldl (fun found s =>
        if hasPart reason s.type && found.all (·.type.length < s.type.length) then some s else found) (some found) =
        some found := by
    induction rest with
    | nil => rfl
    | cons s rest ih =>
      obtain ⟨hs, hrest⟩ := List.forall_mem_cons.mp hrest
      rw [List.foldl_cons, if_neg, ih hrest]
      intro hlonger
      rw [Bool.and_eq_true, hs, Option.all_some, decide_eq_true_eq] at hlonger
      rw [hlonger.1, hfound] at hlonger
      exact absurd hlonger.2 (Nat.lt_irrefl _)
  induction subs with
  | nil => rfl
  | cons s subs ih =>
    obtain ⟨hs, hsubs⟩ := List.forall_mem_cons.mp h
    by_cases htype : s.type = type
    · rw [rejectedOf, List.foldl_cons, if_pos (by rw [hs.mpr htype]; rfl), hkeep s htype subs hsubs,
        List.find?_cons_of_pos (by simpa using htype)]
    · have hnot :
          ¬(hasPart reason s.type && (none : Option Subscription).all (·.type.length < s.type.length)) = true := by
        rw [Bool.and_eq_true]
        exact fun hno => htype (hs.mp hno.1)
      rw [rejectedOf, List.foldl_cons, if_neg hnot, ← rejectedOf, ih hsubs,
        List.find?_cons_of_neg (by simpa using htype)]

variable {s : Subscription}

theorem mem_buildSubscriptions : s ∈ buildSubscriptions panes ↔ (s.type ∈ GLOBAL_SUBSCRIPTIONS ∧ s.paneId = none) ∨
      (s.type = AGENT_STATUS_CHANGED ∧ ∃ id ∈ panes, s.paneId = some id) := by
  obtain ⟨type, paneId⟩ := s
  simp only [buildSubscriptions, List.mem_append, List.mem_map, Subscription.mk.injEq]
  constructor
  · rintro (⟨t, ht, rfl, rfl⟩ | ⟨id, hid, rfl, rfl⟩)
    · exact .inl ⟨ht, rfl⟩
    · exact .inr ⟨rfl, id, hid, rfl⟩
  · rintro (⟨ht, rfl⟩ | ⟨rfl, id, hid, rfl⟩)
    · exact .inl ⟨type, ht, rfl, rfl⟩
    · exact .inr ⟨id, hid, rfl, rfl⟩

theorem agentStatus_not_global : AGENT_STATUS_CHANGED ∉ GLOBAL_SUBSCRIPTIONS := by decide

theorem type_mem_of_mem_buildSubscriptions (h : s ∈ buildSubscriptions panes) :
    s.type ∈ AGENT_STATUS_CHANGED :: GLOBAL_SUBSCRIPTIONS := by
  obtain ⟨hglobal, -⟩ | ⟨hagent, -⟩ := mem_buildSubscriptions.mp h
  · exact List.mem_cons_of_mem _ hglobal
  · exact hagent ▸ List.mem_cons_self ..

theorem find?_global (panes : List String) (h : type ∈ GLOBAL_SUBSCRIPTIONS) :
    (buildSubscriptions panes).find? (·.type = type) = some { type } := by
  cases hfound : (buildSubscriptions panes).find? (·.type = type) with
  | none =>
    have hnone := List.find?_eq_none.mp hfound { type } (mem_buildSubscriptions.mpr (.inl ⟨h, rfl⟩))
    simp at hnone
  | some s =>
    have htype : s.type = type := by simpa using List.find?_some hfound
    obtain ⟨-, hpane⟩ | ⟨hagent, -⟩ := mem_buildSubscriptions.mp (List.mem_of_find?_eq_some hfound)
    · obtain ⟨t, p⟩ := s
      subst htype hpane
      rfl
    · exact absurd (htype.symm.trans hagent ▸ h) agentStatus_not_global

theorem find?_agentStatus (panes : List String) : (buildSubscriptions panes).find? (·.type = AGENT_STATUS_CHANGED) =
      panes.head?.map fun id => { type := AGENT_STATUS_CHANGED, paneId := some id } := by
  have hglobals : (GLOBAL_SUBSCRIPTIONS.map fun type => ({ type } : Subscription)).find?
      (·.type = AGENT_STATUS_CHANGED) = none := by decide
  rw [buildSubscriptions, List.find?_append, hglobals, Option.none_or]
  cases panes <;> rfl

/-! ### What is dropped -/

namespace EventPoker

variable {p : EventPoker} {reason : String} {s : Subscription}

/-- The keeper that does not ask for the subscription any more. -/
def without (p : EventPoker) (s : Subscription) : EventPoker :=
  match s.paneId with
  | none => { p with droppedTypes := insert s.type p.droppedTypes }
  | some id => { p with droppedPanes := insert id p.droppedPanes }

/-- A refused pane is the first agent pane; or the first one's id does not occur in the reason, and every other pane
that has an id is dropped already. -/
def Placed (p : EventPoker) (reason : String) (s : Subscription) : Prop :=
  ∀ id, s.paneId = some id → p.agentPanes.head? = some id ∨
    (id ≠ "" ∧ (∀ first, p.agentPanes.head? = some first → hasPart reason first = false) ∧
      ∀ other ∈ p.agentPanes, other = id ∨ other = "" ∨ other ∈ p.droppedPanes)

theorem mem_subscriptions : s ∈ p.subscriptions ↔
    (s.type ∈ GLOBAL_SUBSCRIPTIONS ∧ s.paneId = none ∧ s.type ∉ p.droppedTypes) ∨
      (s.type = AGENT_STATUS_CHANGED ∧ ∃ id ∈ p.agentPanes, s.paneId = some id ∧ id ∉ p.droppedPanes) := by
  rw [subscriptions, List.mem_filter, mem_buildSubscriptions]
  constructor
  · rintro ⟨⟨hglobal, hpane⟩ | ⟨hagent, id, hid, hpane⟩, hasks⟩
    · have hne : s.type ≠ AGENT_STATUS_CHANGED := fun hno => agentStatus_not_global (hno ▸ hglobal)
      exact .inl ⟨hglobal, hpane, by simpa [asks, hne] using hasks⟩
    · exact .inr ⟨hagent, id, hid, hpane, by simpa [asks, hagent, hpane] using hasks⟩
  · rintro (⟨hglobal, hpane, hkept⟩ | ⟨hagent, id, hid, hpane, hkept⟩)
    · have hne : s.type ≠ AGENT_STATUS_CHANGED := fun hno => agentStatus_not_global (hno ▸ hglobal)
      exact ⟨.inl ⟨hglobal, hpane⟩, by simpa [asks, hne] using hkept⟩
    · exact ⟨.inr ⟨hagent, id, hid, hpane⟩, by simpa [asks, hagent, hpane] using hkept⟩

theorem rejectedOf_of_namesOnly (hnames : NamesOnly p.agentPanes reason s) :
    rejectedOf reason (buildSubscriptions p.agentPanes) =
      (buildSubscriptions p.agentPanes).find? (·.type = s.type) :=
  rejectedOf_eq_find? fun _ hother => hnames.type_iff _ (type_mem_of_mem_buildSubscriptions hother)

theorem drop_global (hrejects : rejects reason = true) (hnames : NamesOnly p.agentPanes reason s)
    (hglobal : s.type ∈ GLOBAL_SUBSCRIPTIONS) (hpane : s.paneId = none) (hkept : s.type ∉ p.droppedTypes) :
    p.dropRejectedSubscription reason = some (p.without s) := by
  have hne : s.type ≠ AGENT_STATUS_CHANGED := fun hno => agentStatus_not_global (hno ▸ hglobal)
  simp only [dropRejectedSubscription, hrejects, rejectedOf_of_namesOnly hnames, find?_global _ hglobal,
    Bool.not_true, Bool.false_eq_true, if_false, if_neg hne, if_neg hkept, without, hpane]

def everyPane (p : EventPoker) : Finset String :=
  (((buildSubscriptions p.agentPanes).filter (·.type = AGENT_STATUS_CHANGED)).filterMap
    (·.paneId.filter (· ≠ ""))).toFinset

variable {id : String}

theorem mem_everyPane : id ∈ p.everyPane ↔ id ∈ p.agentPanes ∧ id ≠ "" := by
  rw [everyPane, List.mem_toFinset, List.mem_filterMap]
  constructor
  · rintro ⟨s, hs, hid⟩
    obtain ⟨hpane, hne⟩ := Option.filter_eq_some_iff.mp hid
    obtain ⟨hs, htype⟩ := List.mem_filter.mp hs
    obtain ⟨-, hnone⟩ | ⟨-, other, hother, hsome⟩ := mem_buildSubscriptions.mp hs
    · rw [hnone] at hpane
      cases hpane
    · obtain rfl := Option.some.inj (hsome.symm.trans hpane)
      exact ⟨hother, by simpa using hne⟩
  · rintro ⟨hid, hne⟩
    refine ⟨{ type := AGENT_STATUS_CHANGED, paneId := some id }, List.mem_filter.mpr ⟨?_, by simp⟩, ?_⟩
    · exact mem_buildSubscriptions.mpr (.inr ⟨rfl, id, hid, rfl⟩)
    · exact Option.filter_eq_some_iff.mpr ⟨rfl, by simpa using hne⟩

/-- What a rejection of the agent panes' type drops: the first pane if the reason holds its id, else every pane. -/
def droppedBy (p : EventPoker) (reason first : String) : Finset String :=
  if hasPart reason first then insert first p.droppedPanes else p.droppedPanes ∪ p.everyPane

variable {first : String}

theorem drop_pane (hrejects : rejects reason = true) (hnames : NamesOnly p.agentPanes reason s)
    (hagent : s.type = AGENT_STATUS_CHANGED) (hfirst : p.agentPanes.head? = some first) :
    p.dropRejectedSubscription reason = if (p.droppedBy reason first).card = p.droppedPanes.card then none
      else some { p with droppedPanes := p.droppedBy reason first } := by
  have hfound := rejectedOf_of_namesOnly hnames
  rw [hagent, find?_agentStatus, hfirst, Option.map_some] at hfound
  by_cases hpart : hasPart reason first = true
  · simp only [dropRejectedSubscription, hrejects, hfound, Bool.not_true, Bool.false_eq_true, if_false, if_true,
      Option.filter, hpart, droppedBy]
  · simp only [dropRejectedSubscription, hrejects, hfound, Bool.not_true, Bool.false_eq_true, if_false, if_true,
      Option.filter, hpart, droppedBy, everyPane]

theorem droppedBy_eq_insert_iff (hid : id ∈ p.agentPanes) (hkept : id ∉ p.droppedPanes)
    (hnamed : namesPane p.agentPanes reason id = true) (hpane : s.paneId = some id)
    (hfirst : p.agentPanes.head? = some first) :
    p.droppedBy reason first = insert id p.droppedPanes ↔ p.Placed reason s := by
  rw [droppedBy]
  split_ifs with hpart
  · constructor
    · intro heq other hother
      obtain rfl := Option.some.inj (hpane.symm.trans hother)
      have hmem : id ∈ insert first p.droppedPanes := heq ▸ Finset.mem_insert_self _ _
      obtain rfl := (Finset.mem_insert.mp hmem).resolve_right hkept
      exact .inl hfirst
    · intro hplaced
      obtain hhead | ⟨-, hunnamed, -⟩ := hplaced id hpane
      · rw [Option.some.inj (hfirst.symm.trans hhead)]
      · rw [hunnamed first hfirst] at hpart
        cases hpart
  · have hunnamed : hasPart reason first = false := Bool.eq_false_iff.mpr hpart
    have hne : first ≠ id := fun heq => hpart (heq ▸ hasPart_of_namesPane hnamed)
    constructor
    · intro heq other hother
      obtain rfl := Option.some.inj (hpane.symm.trans hother)
      have hmem : id ∈ p.droppedPanes ∪ p.everyPane := heq ▸ Finset.mem_insert_self _ _
      have hnonempty := (mem_everyPane.mp ((Finset.mem_union.mp hmem).resolve_left hkept)).2
      refine .inr ⟨hnonempty, fun head hhead => ?_, fun other hother => ?_⟩
      · rwa [← Option.some.inj (hfirst.symm.trans hhead)]
      · by_cases hempty : other = ""
        · exact .inr (.inl hempty)
        · have hdropped : other ∈ insert id p.droppedPanes :=
            heq ▸ Finset.mem_union_right _ (mem_everyPane.mpr ⟨hother, hempty⟩)
          exact (Finset.mem_insert.mp hdropped).imp_right .inr
    · intro hplaced
      obtain hhead | ⟨hnonempty, -, hothers⟩ := hplaced id hpane
      · exact absurd (Option.some.inj (hfirst.symm.trans hhead)) hne
      · ext other
        rw [Finset.mem_union, Finset.mem_insert, mem_everyPane]
        constructor
        · rintro (hdropped | ⟨hother, hempty⟩)
          · exact .inr hdropped
          · exact (hothers other hother).imp_right fun h => h.resolve_left hempty
        · rintro (rfl | hdropped)
          · exact .inr ⟨hid, hnonempty⟩
          · exact .inl hdropped

theorem drop_eq_without_iff (hrejects : rejects reason = true) (hs : s ∈ p.subscriptions)
    (hnames : NamesOnly p.agentPanes reason s) :
    p.dropRejectedSubscription reason = some (p.without s) ↔ p.Placed reason s := by
  obtain ⟨hglobal, hpane, hkept⟩ | ⟨hagent, id, hid, hpane, hkept⟩ := mem_subscriptions.mp hs
  · refine iff_of_true (drop_global hrejects hnames hglobal hpane hkept) fun id hid => ?_
    rw [hpane] at hid
    cases hid
  · cases hfirst : p.agentPanes.head? with
    | none => exact absurd (List.head?_eq_none_iff.mp hfirst ▸ hid) List.not_mem_nil
    | some first =>
      have hnamed := (hnames.pane_iff hagent id hid).mpr hpane
      rw [drop_pane hrejects hnames hagent hfirst, ← droppedBy_eq_insert_iff hid hkept hnamed hpane hfirst, without,
        hpane]
      dsimp only
      constructor
      · intro hdrop
        split_ifs at hdrop
        exact congrArg EventPoker.droppedPanes (Option.some.inj hdrop)
      · intro heq
        have hcard : (p.droppedBy reason first).card ≠ p.droppedPanes.card := by
          rw [heq, Finset.card_insert_of_notMem hkept]
          exact Nat.succ_ne_self _
        rw [if_neg hcard, heq]

theorem without_fields (p : EventPoker) (s : Subscription) : (p.without s).started = p.started ∧
    (p.without s).agentPanes = p.agentPanes ∧ (p.without s).reconnectTimer = p.reconnectTimer := by
  unfold without
  split <;> exact ⟨rfl, rfl, rfl⟩

theorem subscriptions_without (hs : s ∈ p.subscriptions) :
    (p.without s).subscriptions = p.subscriptions.filter (· ≠ s) := by
  rw [subscriptions, (without_fields p s).2.1, subscriptions, List.filter_filter]
  refine List.filter_congr fun other hother => ?_
  rw [Bool.eq_iff_iff, Bool.and_eq_true, decide_eq_true_eq]
  obtain ⟨hglobal, hpane, -⟩ | ⟨hagent, id, -, hpane, -⟩ := mem_subscriptions.mp hs
  · have hne : s.type ≠ AGENT_STATUS_CHANGED := fun hno => agentStatus_not_global (hno ▸ hglobal)
    obtain ⟨hother, hnone⟩ | ⟨hother, id, -, hsome⟩ := mem_buildSubscriptions.mp hother
    · have hother : other.type ≠ AGENT_STATUS_CHANGED := fun hno => agentStatus_not_global (hno ▸ hother)
      have heq : other = s ↔ other.type = s.type := by
        refine ⟨fun h => h ▸ rfl, fun h => ?_⟩
        obtain ⟨type, paneId⟩ := other
        obtain ⟨type', paneId'⟩ := s
        simp_all
      simp [asks, hother, without, hpane, heq]
    · have heq : other ≠ s := fun h => hne (h ▸ hother)
      simp [asks, hother, without, hpane, heq]
  · obtain ⟨hglobal, hnone⟩ | ⟨hother, id', -, hsome⟩ := mem_buildSubscriptions.mp hother
    · have hother : other.type ≠ AGENT_STATUS_CHANGED := fun hno => agentStatus_not_global (hno ▸ hglobal)
      have heq : other ≠ s := fun h => hother (h ▸ hagent)
      simp [asks, hother, without, hpane, heq]
    · have heq : other = s ↔ id' = id := by
        obtain ⟨type, paneId⟩ := other
        obtain ⟨type', paneId'⟩ := s
        simp_all
      simp [asks, hother, without, hpane, hsome, heq]

end EventPoker

/-! ### Servers -/

/-- A server that refuses a fixed set of subscriptions, one at a time: it answers with a reason that names one refused
subscription of those it is asked for, and accepts when there is none. -/
structure RefusesEach (panes : List String) (unknown : Subscription → Bool)
    (answer : List Subscription → Option String) : Prop where
  accepts_iff : ∀ subs, answer subs = none ↔ ∀ s ∈ subs, unknown s = false
  names : ∀ subs reason, answer subs = some reason →
    rejects reason = true ∧ ∃ s ∈ subs, unknown s = true ∧ NamesOnly panes reason s

namespace PokerWorld

variable {c : PokerConfig} {answer : List Subscription → Option String} {w : PokerWorld}

/-- The server's refusal of what the open stream asks for; nothing happens when it accepts. -/
def refused (c : PokerConfig) (answer : List Subscription → Option String) (w : PokerWorld) : PokerWorld :=
  match w.poker.stream, answer w.poker.subscriptions with
  | some handle, some reason => w.onDown c handle reason
  | _, _ => w

/-- The subscriptions that the server's answer may name are placed. -/
def PlacedAnswer (answer : List Subscription → Option String) (w : PokerWorld) : Prop :=
  ∀ reason, answer w.poker.subscriptions = some reason → ∀ s ∈ w.poker.subscriptions,
    NamesOnly w.poker.agentPanes reason s → w.poker.Placed reason s

variable {handle : Nat}

theorem refused_of_placed {reason : String} {s : Subscription} (hstarted : w.poker.started = true)
    (hstream : w.poker.stream = some handle) (hanswer : answer w.poker.subscriptions = some reason)
    (hrejects : rejects reason = true) (hs : s ∈ w.poker.subscriptions)
    (hnames : NamesOnly w.poker.agentPanes reason s) (hplaced : w.poker.Placed reason s) :
    (w.refused c answer).poker.started = true ∧ (w.refused c answer).poker.stream = some w.handles ∧
      (w.refused c answer).poker.reconnectTimer = w.poker.reconnectTimer ∧
      (w.refused c answer).poker.agentPanes = w.poker.agentPanes ∧
      (w.refused c answer).poker.subscriptions = w.poker.subscriptions.filter (· ≠ s) ∧
      (w.refused c answer).instantReconnects = w.instantReconnects + 1 := by
  have hdown : ∀ m, m = ({ w with poker.stream := none, poker.stableTimer := none } : PokerWorld).setHealthy false →
      m.poker = { w.poker with stream := none, stableTimer := none, healthy := false } ∧ m.handles = w.handles ∧
        m.instantReconnects = w.instantReconnects := by
    rintro m rfl
    unfold setHealthy
    split_ifs with hhealthy
    · refine ⟨?_, rfl, rfl⟩
      dsimp only at hhealthy ⊢
      rw [← hhealthy]
    · refine ⟨rfl, rfl, ?_⟩
      simp [instantReconnects]
  rw [refused, hstream, hanswer]
  dsimp only
  rw [onDown, if_neg (by simp [hstream])]
  generalize hm : ({ w with poker.stream := none, poker.stableTimer := none } : PokerWorld).setHealthy false = m
  obtain ⟨hpoker, hhandles, hreconnects⟩ := hdown m hm.symm
  have hs' : s ∈ m.poker.subscriptions := by rw [hpoker]; exact hs
  have hdrop : m.poker.dropRejectedSubscription reason = some (m.poker.without s) := by
    refine (EventPoker.drop_eq_without_iff hrejects hs' ?_).mpr ?_
    · rw [hpoker]
      exact hnames
    · rw [hpoker]
      exact hplaced
  dsimp only
  rw [if_neg (by simp [hpoker, hstarted]), hdrop]
  obtain ⟨hsame, hsamePanes, hsameTimer⟩ := EventPoker.without_fields m.poker s
  refine ⟨?_, ?_, ?_, ?_, ?_, ?_⟩
  · show (m.poker.without s).started = true
    rw [hsame, hpoker]
    exact hstarted
  · show some m.handles = some w.handles
    rw [hhandles]
  · show (m.poker.without s).reconnectTimer = w.poker.reconnectTimer
    rw [hsameTimer, hpoker]
  · show (m.poker.without s).agentPanes = w.poker.agentPanes
    rw [hsamePanes, hpoker]
  · show (m.poker.without s).subscriptions = w.poker.subscriptions.filter (· ≠ s)
    rw [EventPoker.subscriptions_without hs', hpoker]
    rfl
  · rw [← hreconnects]
    simp [instantReconnects, connect]

/-- While every refusal is of a placed subscription, the server is asked again at once, at most as often as it refuses
subscriptions that are asked for, and then accepts everything it does not refuse. -/
theorem exists_settled {unknown : Subscription → Bool} (hserver : RefusesEach w.poker.agentPanes unknown answer)
    (hstarted : w.poker.started = true) (hstream : w.poker.stream.isSome = true)
    (hplaced : ∀ k, ((refused c answer)^[k] w).PlacedAnswer answer) :
    ∃ k ≤ (w.poker.subscriptions.filter unknown).length,
      answer ((refused c answer)^[k] w).poker.subscriptions = none ∧
      ((refused c answer)^[k] w).poker.subscriptions = w.poker.subscriptions.filter (!unknown ·) ∧
      ((refused c answer)^[k] w).poker.stream.isSome = true ∧
      ((refused c answer)^[k] w).poker.reconnectTimer = w.poker.reconnectTimer ∧
      ((refused c answer)^[k] w).instantReconnects = w.instantReconnects + k := by
  generalize hn : (w.poker.subscriptions.filter unknown).length = n
  induction n using Nat.strong_induction_on generalizing w with
  | _ n ih =>
    cases hanswer : answer w.poker.subscriptions with
    | none =>
      have haccepted := (hserver.accepts_iff _).mp hanswer
      refine ⟨0, Nat.zero_le _, hanswer, ?_, hstream, rfl, rfl⟩
      exact (List.filter_eq_self.mpr fun s hs => by rw [haccepted s hs]; rfl).symm
    | some reason =>
      obtain ⟨hrejects, s, hs, hunknown, hnames⟩ := hserver.names _ _ hanswer
      obtain ⟨handle, hhandle⟩ := Option.isSome_iff_exists.mp hstream
      obtain ⟨hstarted', hstream', htimer, hpanes, hsubs, hreconnects⟩ :=
        refused_of_placed (c := c) hstarted hhandle hanswer hrejects hs hnames (hplaced 0 reason hanswer s hs hnames)
      have hless : ((refused c answer w).poker.subscriptions.filter unknown).length < n := by
        rw [← hn, hsubs, List.filter_comm]
        exact List.length_filter_lt_length_iff_exists.mpr ⟨s, List.mem_filter.mpr ⟨hs, hunknown⟩, by simp⟩
      obtain ⟨k, hk, hnone, hasked, hopen, hidle, hcount⟩ := ih _ hless (w := refused c answer w)
        (hpanes ▸ hserver) hstarted' (by rw [hstream']; rfl) (fun k => hplaced (k + 1)) rfl
      refine ⟨k + 1, hk.trans_lt hless, hnone, ?_, hopen, hidle.trans htimer, ?_⟩
      · rw [Function.iterate_succ_apply, hasked, hsubs, List.filter_filter]
        refine List.filter_congr fun other hother => ?_
        by_cases heq : other = s
        · simp [heq, hunknown]
        · simp [heq]
      · rw [Function.iterate_succ_apply, hcount, hreconnects]
        omega

theorem healthy_onUp (h : w.poker.stream = some handle) : (w.onUp handle).poker.healthy = true := by
  have hhealthy (m : PokerWorld) : (m.setHealthy true).poker.healthy = true := by
    unfold setHealthy
    split_ifs with hm
    · exact hm
    · rfl
  rw [onUp, if_neg (by simp [h])]
  exact hhealthy _

end PokerWorld

/-! ### What a rejection costs -/

/-- A named subscription is dropped, and nothing else, exactly when it is placed. A server that refuses a fixed set of
subscriptions, one at a time and each placed when it is refused, is asked again at once finitely often; then the
stream comes up with all the subscriptions that it accepts. -/
theorem rejection_costs_itself_iff (p : EventPoker) (reason : String) (s : Subscription) :
    (rejects reason = true → s ∈ p.subscriptions → NamesOnly p.agentPanes reason s →
      (p.dropRejectedSubscription reason = some (p.without s) ↔ p.Placed reason s)) ∧
    ∀ (c : PokerConfig) (unknown : Subscription → Bool) (answer : List Subscription → Option String) (w : PokerWorld),
      RefusesEach w.poker.agentPanes unknown answer → w.poker.started = true → w.poker.stream.isSome = true →
      (∀ k, ((PokerWorld.refused c answer)^[k] w).PlacedAnswer answer) →
      ∃ k ≤ (w.poker.subscriptions.filter unknown).length, ∃ m, m = (PokerWorld.refused c answer)^[k] w ∧
        answer m.poker.subscriptions = none ∧
        m.poker.subscriptions = w.poker.subscriptions.filter (!unknown ·) ∧
        (∃ handle, m.poker.stream = some handle ∧ (m.onUp handle).poker.healthy = true) ∧
        m.poker.reconnectTimer = w.poker.reconnectTimer ∧ m.instantReconnects = w.instantReconnects + k := by
  refine ⟨fun hrejects hs hnames => EventPoker.drop_eq_without_iff hrejects hs hnames,
    fun c unknown answer w hserver hstarted hstream hplaced => ?_⟩
  obtain ⟨k, hk, hnone, hasked, hopen, hidle, hcount⟩ := PokerWorld.exists_settled hserver hstarted hstream hplaced
  obtain ⟨handle, hhandle⟩ := Option.isSome_iff_exists.mp hopen
  exact ⟨k, hk, _, rfl, hnone, hasked, ⟨handle, hhandle, PokerWorld.healthy_onUp hhandle⟩, hidle, hcount⟩

def twoPanes : EventPoker where
  agentPanes := ["w1:p1", "w1:p2"]
  started := true
  stream := some 0

def statusOf (id : String) : Subscription := { type := AGENT_STATUS_CHANGED, paneId := some id }

private def firstRefused : String := "invalid_request: unknown variant pane.agent_status_changed, pane w1:p1"
private def secondRefused : String := "invalid_request: unknown variant pane.agent_status_changed, pane w1:p2"

theorem namesOnly_refused : NamesOnly twoPanes.agentPanes firstRefused (statusOf "w1:p1") ∧
    NamesOnly twoPanes.agentPanes secondRefused (statusOf "w1:p2") :=
  ⟨⟨by decide +kernel, fun _ => by decide +kernel⟩, by decide +kernel, fun _ => by decide +kernel⟩

private def moved : Subscription := { type := "pane.moved" }

private def movedRefused : String := "invalid_request: unknown variant pane.moved"

private def withoutMoved (subs : List Subscription) : Option String :=
  if moved ∈ subs then some movedRefused else none

theorem movedRefused_spec : rejects movedRefused = true ∧ ∀ type ∈ AGENT_STATUS_CHANGED :: GLOBAL_SUBSCRIPTIONS,
    hasPart movedRefused type = true ↔ type = moved.type := by
  decide +kernel

theorem refusesEach_withoutMoved (panes : List String) : RefusesEach panes (decide <| · = moved) withoutMoved := by
  constructor
  · intro subs
    simp only [withoutMoved, ite_eq_right_iff, reduceCtorEq, imp_false, decide_eq_false_iff_not]
    exact ⟨fun h s hs heq => h (heq ▸ hs), fun h hs => h moved hs rfl⟩
  · intro subs reason hanswer
    rw [withoutMoved] at hanswer
    split_ifs at hanswer with hs
    cases hanswer
    exact ⟨movedRefused_spec.1, moved, hs, by simp, movedRefused_spec.2, fun hno => absurd hno (by decide)⟩

theorem placedAnswer_withoutMoved (w : PokerWorld) : w.PlacedAnswer withoutMoved := by
  intro reason hanswer s hs hnames id hid
  rw [withoutMoved] at hanswer
  split_ifs at hanswer
  cases hanswer
  have hoccurs := (movedRefused_spec.2 moved.type (by decide)).mpr rfl
  have htype : moved.type = s.type := (hnames.type_iff _ (by decide)).mp hoccurs
  obtain ⟨-, hnone, -⟩ | ⟨hagent, -⟩ := EventPoker.mem_subscriptions.mp hs
  · rw [hnone] at hid
    cases hid
  · exact absurd (htype.trans hagent) (by decide)

/-- The first pane's rejection costs the first pane, and a server without one type is asked for all the others. -/
theorem rejection_costs_itself_iff_moved :
    twoPanes.dropRejectedSubscription firstRefused = some (twoPanes.without (statusOf "w1:p1")) ∧
      ∃ m : PokerWorld, withoutMoved m.poker.subscriptions = none ∧
        m.poker.subscriptions = twoPanes.subscriptions.filter (· ≠ moved) := by
  have hfirst : twoPanes.Placed firstRefused (statusOf "w1:p1") := fun id hid => .inl (hid ▸ rfl)
  refine ⟨(rejection_costs_itself_iff twoPanes firstRefused (statusOf "w1:p1")).1 (by decide +kernel)
    (by decide +kernel) namesOnly_refused.1 |>.mpr hfirst, ?_⟩
  obtain ⟨k, -, m, -, hnone, hasked, -⟩ := (rejection_costs_itself_iff twoPanes firstRefused moved).2 {}
    (decide <| · = moved) withoutMoved
    { poker := twoPanes, handles := 1 } (refusesEach_withoutMoved _) rfl rfl fun k => placedAnswer_withoutMoved _
  exact ⟨m, hnone, by simpa using hasked⟩

/-- The second pane's rejection costs both panes. -/
theorem second_pane_costs_both : ¬∀ (p : EventPoker) (reason : String) (s : Subscription), rejects reason = true →
    s ∈ p.subscriptions → NamesOnly p.agentPanes reason s →
    p.dropRejectedSubscription reason = some (p.without s) := by
  intro h
  have hdrop := h twoPanes secondRefused (statusOf "w1:p2") (by decide +kernel) (by decide +kernel) namesOnly_refused.2
  have hboth : twoPanes.dropRejectedSubscription secondRefused =
      some { twoPanes with droppedPanes := {"w1:p1", "w1:p2"} } := by decide +kernel
  exact absurd (hboth.symm.trans hdrop) (by decide +kernel)

end Sightr
