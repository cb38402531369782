import Sightr.Lib.JsText
import Sightr.Lib.Runs
import Sightr.Lib.Separated
import Sightr.Lib.Table

/-!
# Shared pane reads

`bridge/herdr-client.ts`: a read of a pane joins the read of the same shape that is in flight, and a write to the
pane makes every read in flight forgotten, once before it is sent and once when it settles. Calls, replies and the
`finally` handlers of settled requests come in any order.
-/

namespace Sightr

open JsText Separated
open Keyed (Table)

/-! ### The state -/

inductive ReadSource
  | visible | recent | recent_unwrapped
  deriving DecidableEq

inductive ReadFormat
  | text | ansi
  deriving DecidableEq

def ReadSource.name : ReadSource → List Char
  | visible => "visible".toList
  | recent => "recent".toList
  | recent_unwrapped => "recent_unwrapped".toList

def ReadFormat.name : ReadFormat → List Char
  | text => "text".toList
  | ansi => "ansi".toList

structure ReadShape where
  paneId : List Char
  source : ReadSource
  lines : Nat
  format : ReadFormat
  deriving DecidableEq

/-- The fields of a shape behind the pane, as the key has them. -/
def ReadShape.rest (shape : ReadShape) : List Char :=
  shape.source.name ++ '\x00' :: (natText shape.lines ++ '\x00' :: shape.format.name)

def ReadShape.key (shape : ReadShape) : List Char := shape.paneId ++ '\x00' :: shape.rest

inductive PaneWrite
  | sendPaneText (text : String)
  | sendPaneKeys (keys : List String)
  | closePane
  deriving DecidableEq

inductive PaneRequest
  | read (shape : ReadShape)
  | write (paneId : List Char) (write : PaneWrite)
  deriving DecidableEq

/-- A request that was sent. It settles when its `finally` handler runs, at some time after its reply. -/
structure SentRequest (ρ : Type*) where
  request : PaneRequest
  sentAt : Nat
  reply : Option ρ := none
  settledAt : Option Nat := none
  deriving DecidableEq

/-- A call of `readPane`, and the request whose promise it was given. -/
structure ReadCall where
  shape : ReadShape
  issuedAt : Nat
  request : Nat
  deriving DecidableEq

/-- An entry of the map: a key, and the request its promise belongs to. -/
structure SharedRead where
  key : List Char
  request : Nat
  deriving DecidableEq

/-- The client: `ρ` is what a reply can be, an error too. -/
structure PaneReads (ρ : Type*) where
  requests : List (SentRequest ρ) := []
  reads : Table SharedRead.key := .empty
  calls : List ReadCall := []
  now : Nat := 0
  deriving DecidableEq

namespace PaneReads

variable {ρ : Type*}

/-! ### Steps -/

variable (w : PaneReads ρ)

def forgetReads (paneId : List Char) : PaneReads ρ :=
  { w with reads := w.reads.filter fun e => !startsWith (paneId ++ ['\x00']) e.key }

def send (request : PaneRequest) : PaneReads ρ := { w with requests := w.requests ++ [{ request, sentAt := w.now }] }

def give (shape : ReadShape) (request : Nat) : PaneReads ρ :=
  { w with calls := w.calls ++ [{ shape, issuedAt := w.now, request }] }

def tick : PaneReads ρ := { w with now := w.now + 1 }

def readPane (shape : ReadShape) : PaneReads ρ :=
  match w.reads.find? shape.key with
  | some e => w.give shape e.request
  | none =>
    let read := w.requests.length
    { (w.send (.read shape)).give shape read with reads := w.reads.set { key := shape.key, request := read } }

def write (w : PaneReads ρ) (paneId : List Char) (write : PaneWrite) : PaneReads ρ :=
  (w.forgetReads paneId).send (.write paneId write)

/-- The shared reads that the `finally` handler of a request leaves. -/
def cleanup (i : Nat) : PaneRequest → Table SharedRead.key
  -- A later read may have put its own promise there.
  | .read shape => w.reads.filter fun e => !(e.key = shape.key && e.request = i)
  | .write paneId _ => (w.forgetReads paneId).reads

inductive Action (ρ : Type*)
  | readPane (shape : ReadShape)
  | write (paneId : List Char) (write : PaneWrite)
  | reply (i : Nat) (value : ρ)
  | settle (i : Nat)
  deriving DecidableEq

def step : Action ρ → Option (PaneReads ρ)
  | .readPane shape => some (w.readPane shape).tick
  | .write paneId write => some (w.write paneId write).tick
  | .reply i value =>
    if w.requests[i]?.any (·.reply.isNone) then
      some { w with requests := w.requests.modify i ({ · with reply := some value }) }.tick
    else none
  | .settle i =>
    (w.requests[i]?.filter fun r => r.reply.isSome && r.settledAt.isNone).map fun r =>
      { w with
        reads := w.cleanup i r.request
        requests := w.requests.modify i ({ · with settledAt := some w.now }) }.tick

/-- What a call of `readPane` has come to: its request's reply, once that settled. -/
def returned (call : ReadCall) : Option ρ := (w.requests[call.request]?.filter (·.settledAt.isSome)).bind (·.reply)

/-! ### Keys -/

theorem natText_injective : Function.Injective natText := fun m n h => by
  rw [natText_eq, natText_eq] at h
  rw [← Nat.ofDigitChars_ten_toDigits (n := m), h, Nat.ofDigitChars_ten_toDigits]

theorem nul_not_mem_natText (n : Nat) : '\x00' ∉ natText n := fun h =>
  absurd (isDigit_of_mem_natText h) (by decide)

theorem ReadSource.name_injective : Function.Injective ReadSource.name := by
  rintro (_ | _ | _) (_ | _ | _) h <;> first | rfl | exact absurd h (by decide)

theorem ReadFormat.name_injective : Function.Injective ReadFormat.name := by
  rintro (_ | _) (_ | _) h <;> first | rfl | exact absurd h (by decide)

theorem key_injective : Function.Injective ReadShape.key := by
  intro a b h
  have hkey (shape : ReadShape) : shape.key =
      ((shape.paneId ++ '\x00' :: shape.source.name) ++ '\x00' :: natText shape.lines) ++
        '\x00' :: shape.format.name := by
    simp [ReadShape.key, ReadShape.rest]
  have hsource (source : ReadSource) : '\x00' ∉ source.name := by cases source <;> decide
  have hformat (format : ReadFormat) : '\x00' ∉ format.name := by cases format <;> decide
  rw [hkey, hkey] at h
  obtain ⟨h, hf⟩ := append_cons_inj (hformat _) (hformat _) h
  obtain ⟨h, hl⟩ := append_cons_inj (nul_not_mem_natText _) (nul_not_mem_natText _) h
  obtain ⟨hp, hs⟩ := append_cons_inj (hsource _) (hsource _) h
  cases a
  cases b
  cases hp
  cases ReadSource.name_injective hs
  cases natText_injective hl
  cases ReadFormat.name_injective hf
  rfl

theorem startsWith_key (shape : ReadShape) : startsWith (shape.paneId ++ ['\x00']) shape.key = true :=
  List.isPrefixOf_iff_prefix.mpr ⟨shape.rest, by rw [ReadShape.key, List.append_assoc, List.singleton_append]⟩

/-! ### What a run keeps -/

def WritesTo (r : SentRequest ρ) (paneId : List Char) : Prop := ∃ write, r.request = .write paneId write

/-- The request was sent before, and if it has settled, settled before. -/
def Before (r : SentRequest ρ) (time : Nat) : Prop := r.sentAt < time ∧ ∀ t, r.settledAt = some t → t < time

/-- A request may answer a call: it is a read of the call's shape that is pending when the call is made, and it was
sent after every write to the pane issued before the call, and after every such write settled. -/
structure Answers (requests : List (SentRequest ρ)) (r : SentRequest ρ) (call : ReadCall) : Prop where
  same : r.request = .read call.shape
  sent : r.sentAt ≤ call.issuedAt
  pending : ∀ t, r.settledAt = some t → call.issuedAt < t
  issued : ∀ q ∈ requests, WritesTo q call.shape.paneId → q.sentAt < call.issuedAt → q.sentAt < r.sentAt
  settled : ∀ q ∈ requests, WritesTo q call.shape.paneId →
    ∀ t, q.settledAt = some t → t < call.issuedAt → t < r.sentAt

/-- A shared read is pending and was sent after every write to its pane, and after every such write that has settled
did. -/
structure Shares (requests : List (SentRequest ρ)) (e : SharedRead) (shape : ReadShape) (r : SentRequest ρ) :
    Prop where
  found : requests[e.request]? = some r
  same : r.request = .read shape
  key_eq : e.key = shape.key
  pending : r.settledAt = none
  younger : ∀ q ∈ requests, WritesTo q shape.paneId → Before q r.sentAt

structure Kept (w : PaneReads ρ) : Prop where
  past : ∀ r ∈ w.requests, Before r w.now
  shared : ∀ e ∈ w.reads.rows, ∃ shape r, Shares w.requests e shape r
  given : ∀ call ∈ w.calls, call.issuedAt < w.now ∧
    ∃ r, w.requests[call.request]? = some r ∧ Answers w.requests r call

variable {r : SentRequest ρ}

theorem Before.mono {s t : Nat} (h : Before r s) (hst : s ≤ t) : Before r t :=
  ⟨h.1.trans_le hst, fun time htime => (h.2 time htime).trans_le hst⟩

theorem Kept.init : Kept ({} : PaneReads ρ) :=
  ⟨fun _ h => absurd h List.not_mem_nil, fun _ h => absurd h List.not_mem_nil, fun _ h => absurd h List.not_mem_nil⟩

variable {w : PaneReads ρ} {shape : ReadShape} {e : SharedRead}

theorem Kept.join (h : w.Kept) (he : w.reads.find? shape.key = some e) : (w.give shape e.request).tick.Kept := by
  refine ⟨fun r hr => (h.past r hr).mono (Nat.le_succ _), h.shared, fun call hcall => ?_⟩
  obtain hcall | hcall := List.mem_append.mp hcall
  · obtain ⟨hissued, hanswer⟩ := h.given call hcall
    exact ⟨hissued.trans (Nat.lt_succ_self _), hanswer⟩
  · obtain rfl := List.mem_singleton.mp hcall
    obtain ⟨shape', r, hshares⟩ := h.shared e (Table.mem_of_find? he)
    obtain rfl : shape' = shape := key_injective (hshares.key_eq.symm.trans (Table.key_of_find? he))
    have hr := h.past r (List.mem_of_getElem? hshares.found)
    refine ⟨Nat.lt_succ_self _, r, hshares.found, hshares.same, hr.1.le, fun t ht => ?_,
      fun q hq hwrites _ => (hshares.younger q hq hwrites).1, fun q hq hwrites t ht _ =>
      (hshares.younger q hq hwrites).2 t ht⟩
    rw [hshares.pending] at ht
    cases ht

variable {i : Nat}

theorem getElem?_append_of_some {α : Type*} {l : List α} {a b : α} (h : l[i]? = some a) :
    (l ++ [b])[i]? = some a := by
  rw [List.getElem?_append_left (List.getElem?_eq_some_iff.mp h).1, h]

theorem Answers.send {w : PaneReads ρ} {r : SentRequest ρ} {call : ReadCall} (h : Answers w.requests r call)
    (hissued : call.issuedAt < w.now) (request : PaneRequest) : Answers (w.send request).requests r call := by
  refine ⟨h.same, h.sent, h.pending, fun q hq hwrites hlt => ?_, fun q hq hwrites t ht hlt => ?_⟩
  · obtain hq | hq := List.mem_append.mp hq
    · exact h.issued q hq hwrites hlt
    · obtain rfl := List.mem_singleton.mp hq
      exact absurd hlt (Nat.not_lt.mpr hissued.le)
  · obtain hq | hq := List.mem_append.mp hq
    · exact h.settled q hq hwrites t ht hlt
    · obtain rfl := List.mem_singleton.mp hq
      cases ht

theorem Shares.send {w : PaneReads ρ} {e : SharedRead} {shape : ReadShape} {r : SentRequest ρ}
    (h : Shares w.requests e shape r) {request : PaneRequest}
    (hother : ∀ write, request ≠ .write shape.paneId write) :
    Shares (w.send request).requests e shape r := by
  refine ⟨getElem?_append_of_some h.found, h.same, h.key_eq, h.pending, fun q hq hwrites => ?_⟩
  obtain hq | hq := List.mem_append.mp hq
  · exact h.younger q hq hwrites
  · obtain rfl := List.mem_singleton.mp hq
    obtain ⟨write, hwrite⟩ := hwrites
    exact absurd hwrite (hother write)

theorem past_send (h : w.Kept) (request : PaneRequest) : ∀ r ∈ (w.send request).requests, Before r (w.now + 1) := by
  intro r hr
  obtain hr | hr := List.mem_append.mp hr
  · exact (h.past r hr).mono (Nat.le_succ _)
  · obtain rfl := List.mem_singleton.mp hr
    exact ⟨Nat.lt_succ_self _, fun t ht => by cases ht⟩

theorem Kept.fresh (h : w.Kept) (shape : ReadShape) : ({ (w.send (.read shape)).give shape w.requests.length with
        reads := w.reads.set { key := shape.key, request := w.requests.length } } : PaneReads ρ).tick.Kept := by
  have hfound : (w.send (.read shape)).requests[w.requests.length]? =
      some { request := .read shape, sentAt := w.now } :=
    List.getElem?_concat_length
  have hyounger : ∀ q ∈ (w.send (.read shape)).requests, WritesTo q shape.paneId → Before q w.now := by
    intro q hq hwrites
    obtain hq | hq := List.mem_append.mp hq
    · exact h.past q hq
    · obtain rfl := List.mem_singleton.mp hq
      obtain ⟨write, hwrite⟩ := hwrites
      cases hwrite
  refine ⟨past_send h _, fun e he => ?_, fun call hcall => ?_⟩
  · obtain rfl | ⟨he, -⟩ := Table.mem_set.mp he
    · exact ⟨shape, _, hfound, rfl, rfl, rfl, hyounger⟩
    · obtain ⟨shape', r, hshares⟩ := h.shared e he
      exact ⟨shape', r, hshares.send fun write hno => by cases hno⟩
  · obtain hcall | hcall := List.mem_append.mp hcall
    · obtain ⟨hissued, r, hr, hanswers⟩ := h.given call hcall
      exact ⟨hissued.trans (Nat.lt_succ_self _), r, getElem?_append_of_some hr, hanswers.send hissued _⟩
    · obtain rfl := List.mem_singleton.mp hcall
      exact ⟨Nat.lt_succ_self _, _, hfound, rfl, Nat.le_refl _, fun t ht => (by cases ht),
        fun q hq hwrites _ => (hyounger q hq hwrites).1, fun q hq hwrites t ht _ => (hyounger q hq hwrites).2 t ht⟩

theorem Kept.readPane (h : w.Kept) (shape : ReadShape) : (w.readPane shape).tick.Kept := by
  rw [PaneReads.readPane]
  cases he : w.reads.find? shape.key with
  | some e => exact h.join he
  | none => exact h.fresh shape

variable {paneId : List Char}

theorem paneId_ne_of_mem_forgetReads (he : e ∈ (w.forgetReads paneId).reads.rows) (hkey : e.key = shape.key) :
    shape.paneId ≠ paneId := by
  rintro rfl
  have hstays := (List.mem_filter.mp he).2
  rw [hkey, startsWith_key] at hstays
  cases hstays

theorem Kept.write (h : w.Kept) (paneId : List Char) (write : PaneWrite) : (w.write paneId write).tick.Kept := by
  refine ⟨past_send h _, fun e he => ?_, fun call hcall => ?_⟩
  · obtain ⟨shape, r, hshares⟩ := h.shared e (List.mem_of_mem_filter he)
    have hne := paneId_ne_of_mem_forgetReads he hshares.key_eq
    exact ⟨shape, r, hshares.send fun other hno => hne (PaneRequest.write.inj hno).1.symm⟩
  · obtain ⟨hissued, r, hr, hanswers⟩ := h.given call hcall
    exact ⟨hissued.trans (Nat.lt_succ_self _), r, getElem?_append_of_some hr, hanswers.send hissued _⟩

/-- A request and what a reply or its `finally` handler makes of it. -/
structure Updates (now : Nat) (r r' : SentRequest ρ) : Prop where
  request_eq : r'.request = r.request
  sentAt_eq : r'.sentAt = r.sentAt
  settledAt_eq : r'.settledAt = r.settledAt ∨ r'.settledAt = some now

variable {now : Nat} {r' : SentRequest ρ}

theorem Before.update {time : Nat} (h : Before r time) (hnow : now < time) (hr : Updates now r r') :
    Before r' time := by
  refine ⟨hr.sentAt_eq ▸ h.1, fun t ht => ?_⟩
  obtain hsettled | hsettled := hr.settledAt_eq
  · exact h.2 t (hsettled ▸ ht)
  · obtain rfl := Option.some.inj (hsettled.symm.trans ht)
    exact hnow

theorem writesTo_of_updates {q q' : SentRequest ρ} (hq : Updates now q q') (h : WritesTo q' paneId) :
    WritesTo q paneId := by
  obtain ⟨write, hwrite⟩ := h
  exact ⟨write, hq.request_eq ▸ hwrite⟩

variable {requests requests' : List (SentRequest ρ)}

theorem Answers.update {call : ReadCall} (h : Answers requests r call) (hissued : call.issuedAt < now)
    (hr : Updates now r r') (hrequests : ∀ q' ∈ requests', ∃ q ∈ requests, Updates now q q') :
    Answers requests' r' call := by
  refine ⟨hr.request_eq.trans h.same, hr.sentAt_eq ▸ h.sent, fun t ht => ?_, fun q' hq' hwrites hlt => ?_,
    fun q' hq' hwrites t ht hlt => ?_⟩
  · obtain hsettled | hsettled := hr.settledAt_eq
    · exact h.pending t (hsettled ▸ ht)
    · obtain rfl := Option.some.inj (hsettled.symm.trans ht)
      exact hissued
  · obtain ⟨q, hq, hupdates⟩ := hrequests q' hq'
    rw [hupdates.sentAt_eq] at hlt ⊢
    rw [hr.sentAt_eq]
    exact h.issued q hq (writesTo_of_updates hupdates hwrites) hlt
  · obtain ⟨q, hq, hupdates⟩ := hrequests q' hq'
    rw [hr.sentAt_eq]
    obtain hsettled | hsettled := hupdates.settledAt_eq
    · exact h.settled q hq (writesTo_of_updates hupdates hwrites) t (hsettled ▸ ht) hlt
    · obtain rfl := Option.some.inj (hsettled.symm.trans ht)
      exact absurd hlt (Nat.not_lt.mpr hissued.le)

theorem Shares.update (h : Shares requests e shape r) (hfound : requests'[e.request]? = some r')
    (hr : Updates now r r') (hpending : r'.settledAt = none)
    (hrequests : ∀ q' ∈ requests', WritesTo q' shape.paneId →
      ∃ q ∈ requests, Updates now q q' ∧ q'.settledAt = q.settledAt) :
    Shares requests' e shape r' := by
  refine ⟨hfound, hr.request_eq.trans h.same, h.key_eq, hpending, fun q' hq' hwrites => ?_⟩
  obtain ⟨q, hq, hupdates, hsettled⟩ := hrequests q' hq' hwrites
  have hyounger := h.younger q hq (writesTo_of_updates hupdates hwrites)
  rw [hr.sentAt_eq]
  exact ⟨hupdates.sentAt_eq ▸ hyounger.1, fun t ht => hyounger.2 t (hsettled ▸ ht)⟩

section Modify

variable {now i : Nat} {requests : List (SentRequest ρ)} {f : SentRequest ρ → SentRequest ρ}

theorem getElem?_modify_of_some (hf : ∀ q, Updates now q (f q)) {j : Nat} {r : SentRequest ρ}
    (h : requests[j]? = some r) :
    ∃ r', (requests.modify i f)[j]? = some r' ∧ Updates now r r' ∧ (i ≠ j → r' = r) := by
  rw [List.getElem?_modify, h]
  by_cases hij : i = j
  · exact ⟨f r, by simp [hij], hf r, fun hne => absurd hij hne⟩
  · exact ⟨r, by simp [hij], ⟨rfl, rfl, .inl rfl⟩, fun _ => rfl⟩

theorem exists_of_mem_modify (hf : ∀ q, Updates now q (f q)) {q' : SentRequest ρ} (h : q' ∈ requests.modify i f) :
    ∃ q ∈ requests, Updates now q q' ∧ (q' = q ∨ requests[i]? = some q ∧ q' = f q) := by
  obtain ⟨j, hj⟩ := List.mem_iff_getElem?.mp h
  rw [List.getElem?_modify] at hj
  obtain ⟨q, hq, rfl⟩ := Option.map_eq_some_iff.mp hj
  split_ifs with hij
  · exact ⟨q, List.mem_of_getElem? hq, hf q, .inr ⟨hij ▸ hq, rfl⟩⟩
  · exact ⟨q, List.mem_of_getElem? hq, ⟨rfl, rfl, .inl rfl⟩, .inl rfl⟩

end Modify

variable {f : SentRequest ρ → SentRequest ρ}

theorem given_modify (h : w.Kept) (hf : ∀ q, Updates w.now q (f q)) : ∀ call ∈ w.calls, call.issuedAt < w.now + 1 ∧
      ∃ r, (w.requests.modify i f)[call.request]? = some r ∧ Answers (w.requests.modify i f) r call := by
  intro call hcall
  obtain ⟨hissued, r, hr, hanswers⟩ := h.given call hcall
  obtain ⟨r', hr', hupdates, -⟩ := getElem?_modify_of_some (i := i) hf hr
  refine ⟨hissued.trans (Nat.lt_succ_self _), r', hr', hanswers.update hissued hupdates fun q' hq' => ?_⟩
  obtain ⟨q, hq, hq', -⟩ := exists_of_mem_modify hf hq'
  exact ⟨q, hq, hq'⟩

theorem past_modify (h : w.Kept) (hf : ∀ q, Updates w.now q (f q)) :
    ∀ r ∈ w.requests.modify i f, Before r (w.now + 1) := by
  intro q' hq'
  obtain ⟨q, hq, hupdates, -⟩ := exists_of_mem_modify hf hq'
  exact ((h.past q hq).mono (Nat.le_succ _)).update (Nat.lt_succ_self _) hupdates

theorem Kept.reply (h : w.Kept) (i : Nat) (value : ρ) :
    ({ w with requests := w.requests.modify i ({ · with reply := some value }) } : PaneReads ρ).tick.Kept := by
  have hf (q : SentRequest ρ) : Updates w.now q { q with reply := some value } := ⟨rfl, rfl, .inl rfl⟩
  refine ⟨past_modify h hf, fun e he => ?_, given_modify h hf⟩
  obtain ⟨shape, r, hshares⟩ := h.shared e he
  obtain ⟨r', hr', hupdates, hsame⟩ := getElem?_modify_of_some (i := i) hf hshares.found
  have hpending : r'.settledAt = none := by
    rw [List.getElem?_modify, hshares.found] at hr'
    cases hr'
    split_ifs <;> exact hshares.pending
  refine ⟨shape, r', hshares.update hr' hupdates hpending fun q' hq' _ => ?_⟩
  obtain ⟨q, hq, hq', heq⟩ := exists_of_mem_modify hf hq'
  obtain rfl | ⟨-, rfl⟩ := heq
  · exact ⟨q', hq, hq', rfl⟩
  · exact ⟨q, hq, hq', rfl⟩

theorem mem_reads_of_mem_cleanup {request : PaneRequest} (he : e ∈ (w.cleanup i request).rows) :
    e ∈ w.reads.rows := by
  cases request with
  | read shape => exact List.mem_of_mem_filter he
  | write paneId write => exact List.mem_of_mem_filter he

theorem Kept.settle {w : PaneReads ρ} (h : w.Kept) {i : Nat} {r : SentRequest ρ} (hr : w.requests[i]? = some r) :
    ({ w with
        reads := w.cleanup i r.request
        requests := w.requests.modify i ({ · with settledAt := some w.now }) } : PaneReads ρ).tick.Kept := by
  have hf (q : SentRequest ρ) : Updates w.now q { q with settledAt := some w.now } := ⟨rfl, rfl, .inr rfl⟩
  refine ⟨past_modify h hf, fun e he => ?_, given_modify h hf⟩
  obtain ⟨shape, s, hshares⟩ := h.shared e (mem_reads_of_mem_cleanup he)
  have hne : i ≠ e.request := fun heq => by
    obtain rfl : r = s := Option.some.inj (hr.symm.trans (heq ▸ hshares.found))
    rw [hshares.same] at he
    have hstays := (List.mem_filter.mp he).2
    simp [hshares.key_eq, heq] at hstays
  obtain ⟨s', hs', hupdates, hsame⟩ := getElem?_modify_of_some (i := i) hf hshares.found
  have hpending : s'.settledAt = none := (hsame hne) ▸ hshares.pending
  refine ⟨shape, s', hshares.update hs' hupdates hpending fun q' hq' hwrites => ?_⟩
  obtain ⟨q, hq, hq', heq⟩ := exists_of_mem_modify hf hq'
  obtain rfl | ⟨hi, rfl⟩ := heq
  · exact ⟨q', hq, hq', rfl⟩
  · obtain rfl := Option.some.inj (hr.symm.trans hi)
    obtain ⟨write, hwrite⟩ := hwrites
    rw [show r.request = .write shape.paneId write from hwrite] at he
    exact absurd rfl (paneId_ne_of_mem_forgetReads he hshares.key_eq)

theorem Kept.step {w' : PaneReads ρ} (h : w.Kept) {a : Action ρ} (hstep : w.step a = some w') : w'.Kept := by
  cases a with
  | readPane shape =>
    cases hstep
    exact h.readPane shape
  | write paneId write =>
    cases hstep
    exact h.write paneId write
  | reply i value =>
    rw [PaneReads.step] at hstep
    split_ifs at hstep
    cases hstep
    exact h.reply i value
  | settle i =>
    obtain ⟨r, hr, rfl⟩ := Option.map_eq_some_iff.mp hstep
    exact h.settle (Option.filter_eq_some_iff.mp hr).1

theorem kept_of_run (hrun : Runs.Run step (fun _ _ => True) ({} : PaneReads ρ) w) : w.Kept :=
  hrun.invariant (fun _ _ _ h _ hstep => h.step hstep) .init

/-- In every run, a call of `readPane` is given a read of its own pane and shape that is pending when the call is made
and that was sent after every write to the pane issued before the call, and after every such write settled that had
settled before the call; the call returns that read's reply. No shared read is left once all reads have settled. -/
theorem never_stale {w : PaneReads ρ} (hrun : Runs.Run step (fun _ _ => True) ({} : PaneReads ρ) w) :
    (∀ call ∈ w.calls, ∃ r, w.requests[call.request]? = some r ∧ Answers w.requests r call ∧
      w.returned call = if r.settledAt.isSome then r.reply else none) ∧
      ((∀ r ∈ w.requests, (∃ shape, r.request = .read shape) → r.settledAt ≠ none) → w.reads.rows = []) := by
  have hkept := kept_of_run hrun
  refine ⟨fun call hcall => ?_, fun hsettled => ?_⟩
  · obtain ⟨-, r, hr, hanswers⟩ := hkept.given call hcall
    refine ⟨r, hr, hanswers, ?_⟩
    rw [returned, hr]
    cases hs : r.settledAt <;> simp [Option.filter, hs]
  · refine List.eq_nil_iff_forall_not_mem.mpr fun e he => ?_
    obtain ⟨shape, r, hshares⟩ := hkept.shared e he
    exact hsettled r (List.mem_of_getElem? hshares.found) ⟨shape, hshares.same⟩ hshares.pending

def screen : ReadShape where
  paneId := "p1".toList
  source := .recent
  lines := 200
  format := .ansi

/-- A read before, a read during and a read after a key are three requests. -/
theorem never_stale_key : ∃ w : PaneReads Nat, Runs.Run step (fun _ _ => True) {} w ∧
    w.calls.map (·.request) = [0, 2, 3] ∧ ∀ call ∈ w.calls, ∃ r, w.requests[call.request]? = some r ∧
      Answers w.requests r call ∧ w.returned call = if r.settledAt.isSome then r.reply else none := by
  have hexec : (Runs.exec step (fun _ _ => True) ({} : PaneReads Nat)
      [.readPane screen, .write screen.paneId (.sendPaneKeys ["a"]), .readPane screen, .reply 1 0, .settle 1,
        .readPane screen, .reply 0 7, .settle 0]).any (fun w => w.calls.map (·.request) = [0, 2, 3]) = true := by
    decide
  obtain ⟨w, hrun, hcalls⟩ := Runs.exists_run_of_exec hexec
  exact ⟨w, hrun, of_decide_eq_true hcalls, (never_stale hrun).1⟩

end PaneReads

end Sightr
