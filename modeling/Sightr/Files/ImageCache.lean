import Sightr.Lib.Runs
import Sightr.Lib.Table

/-!
# The image cache

`ImageCache` of `bridge/threads/attachments.ts`: decoded journal images in a map, least recently used first, and beside it
a byte count. `journalImage` looks its key up, decodes the image where it misses, and sets it; two overlapping loads of one
image both miss and both set.
-/

namespace Sightr

open Keyed (Table)

structure CachedImage where
  key : String
  value : List UInt8
  deriving DecidableEq

def byteTotal : List CachedImage → Int
  | [] => 0
  | image :: rest => image.value.length + byteTotal rest

structure ImageCache where
  map : Table CachedImage.key := .empty
  bytes : Int := 0

namespace ImageCache

variable (cap : Nat) (c : ImageCache)

def get (key : String) : Option (List UInt8) × ImageCache :=
  match c.map.find? key with
  | none => (none, c)
  | some hit => (some hit.value, { c with map := (c.map.filter (·.key ≠ key)).set hit })

def evict (c : ImageCache) : List CachedImage → ImageCache
  | [] => c
  | image :: rest =>
    if c.bytes ≤ cap then c
    else evict { map := c.map.filter (·.key ≠ image.key), bytes := c.bytes - image.value.length } rest

def set (key : String) (value : List UInt8) : ImageCache :=
  if cap < value.length then c
  else
    let map := c.map.set ⟨key, value⟩
    evict cap { map, bytes := c.bytes + value.length } map.rows

/-! ### Runs -/

inductive Call
  | get (key : String)
  | set (key : String) (value : List UInt8)

/-- A use of a stored image: a lookup that found it, or a set of one within the cap. -/
inductive Use
  | hit (key : String)
  | stored (key : String) (value : List UInt8)

def Use.key : Use → String
  | .hit key | .stored key _ => key

structure Calls where
  cache : ImageCache := {}
  uses : List Use := []

def step (w : Calls) : Call → Option Calls
  | .get key => some {
      cache := (w.cache.get key).2
      uses := if (w.cache.get key).1.isSome then .hit key :: w.uses else w.uses }
  | .set key value => some {
      cache := w.cache.set cap key value
      uses := if cap < value.length then w.uses else .stored key value :: w.uses }

/-- The keys that were used, each once, the last used first. -/
def recent : List Use → List String
  | [] => []
  | use :: past => use.key :: (recent past).filter (· ≠ use.key)

/-- A set within the cap is of a key that is not there, or that is used last and holds no byte. -/
def Single (w : Calls) : Call → Prop
  | .get _ => True
  | .set key value => cap < value.length ∨
      ∀ old ∈ w.cache.map.find? key, old.value = [] ∧ w.cache.map.rows.getLast? = some old

/-- The count is the bytes stored, within the cap; what is stored was used after all that was evicted; what was just set is
stored. -/
structure Exact (w : Calls) : Prop where
  count : w.cache.bytes = byteTotal w.cache.map.rows
  capped : w.cache.bytes ≤ cap
  recent : w.cache.map.rows.reverse.map (·.key) <+: ImageCache.recent w.uses
  stored : ∀ key value past, w.uses = .stored key value :: past → w.cache.map.find? key = some ⟨key, value⟩

/-! ### The rows that stay -/

variable {cap : Nat} {c : ImageCache} {key : String}

@[simp] theorem byteTotal_nil : byteTotal [] = 0 := rfl

@[simp] theorem byteTotal_cons (image : CachedImage) (rest : List CachedImage) :
    byteTotal (image :: rest) = image.value.length + byteTotal rest := rfl

@[simp] theorem byteTotal_append (front back : List CachedImage) :
    byteTotal (front ++ back) = byteTotal front + byteTotal back := by
  induction front with
  | nil => simp
  | cons image rest ih => simp [ih, Int.add_assoc]

/-- Without the key of one of its rows, a table has the rows before and after it. -/
theorem filter_of_split {t : Table CachedImage.key} {front back : List CachedImage} {image : CachedImage}
    (hrows : t.rows = front ++ image :: back) : t.rows.filter (·.key ≠ image.key) = front ++ back := by
  have hkeys := t.nodup
  rw [hrows, List.map_append, List.map_cons, List.nodup_middle, List.nodup_cons, ← List.map_append] at hkeys
  have hother (other : CachedImage) (hmem : other ∈ front ++ back) : decide (other.key ≠ image.key) = true :=
    decide_eq_true fun hsame => hkeys.1 (hsame ▸ List.mem_map_of_mem hmem)
  rw [hrows, List.filter_append, List.filter_cons_of_neg (by simp), ← List.filter_append, List.filter_eq_self]
  exact hother

/-- The loop takes images from the front of the map until the rest is within the cap. -/
theorem evict_concat {front : List CachedImage} {last : CachedImage} (hlast : last.value.length ≤ cap)
    (hrows : c.map.rows = front ++ [last]) (hcount : c.bytes = byteTotal (front ++ [last])) :
    ∃ kept, kept <:+ front ∧ (c.evict cap (front ++ [last])).map.rows = kept ++ [last] ∧
      (c.evict cap (front ++ [last])).bytes = byteTotal (kept ++ [last]) ∧ byteTotal (kept ++ [last]) ≤ cap := by
  induction front generalizing c with
  | nil =>
    have hfits : c.bytes ≤ cap := by
      rw [hcount]
      simpa using hlast
    refine ⟨[], List.suffix_rfl, ?_⟩
    rw [List.nil_append, evict, if_pos hfits]
    exact ⟨hrows, hcount, hcount ▸ hfits⟩
  | cons image rest ih =>
    rw [List.cons_append, evict]
    split_ifs with hfits
    · exact ⟨image :: rest, List.suffix_rfl, hrows, hcount, hcount ▸ hfits⟩
    · have hleft : (c.map.filter (·.key ≠ image.key)).rows = rest ++ [last] := @filter_of_split c.map [] _ image hrows
      have hless : c.bytes - image.value.length = byteTotal (rest ++ [last]) := by
        rw [hcount, List.cons_append, byteTotal_cons]
        omega
      obtain ⟨kept, hkept, hall⟩ := ih (c := ⟨_, _⟩) hleft hless
      exact ⟨kept, hkept.trans (List.suffix_cons ..), hall⟩

theorem recent_filter {rows : List CachedImage} {keys : List String} (h : rows.reverse.map (·.key) <+: keys)
    (key : String) : (rows.filter (·.key ≠ key)).reverse.map (·.key) <+: keys.filter (· ≠ key) := by
  have hfilter := h.filter (· ≠ key)
  rwa [List.filter_map, List.filter_reverse] at hfilter

/-- A single set puts its image behind the others and takes nothing from the bytes. -/
theorem rows_set {t : Table CachedImage.key} (image : CachedImage)
    (h : ∀ old ∈ t.find? image.key, old.value = [] ∧ t.rows.getLast? = some old) :
    (t.set image).rows = t.rows.filter (·.key ≠ image.key) ++ [image] ∧
      byteTotal (t.rows.filter (·.key ≠ image.key)) = byteTotal t.rows := by
  cases hfind : t.find? image.key with
  | none =>
    have hall : t.rows.filter (·.key ≠ image.key) = t.rows :=
      List.filter_eq_self.mpr fun other hmem => decide_eq_true (Table.find?_eq_none_iff.mp hfind other hmem)
    rw [Table.rows_set_of_find?_eq_none hfind, hall]
    exact ⟨rfl, rfl⟩
  | some old =>
    obtain ⟨hempty, hlast⟩ := h old hfind
    obtain ⟨front, hrows⟩ := List.getLast?_eq_some_iff.mp hlast
    have hkey := Table.key_of_find? hfind
    have hfilter : t.rows.filter (·.key ≠ image.key) = front := by
      rw [← hkey, filter_of_split hrows, List.append_nil]
    have hother (other : CachedImage) (hmem : other ∈ front) : other.key ≠ image.key := by
      rw [← hfilter] at hmem
      exact of_decide_eq_true (List.mem_filter.mp hmem).2
    have hthere : image.key ∈ t.rows.map (·.key) := hkey ▸ List.mem_map_of_mem (Table.mem_of_find? hfind)
    rw [hfilter, Table.set, dif_pos hthere]
    refine ⟨?_, by rw [hrows]; simp [hempty]⟩
    show t.rows.map _ = _
    rw [hrows, List.map_append, List.map_congr_left fun other hmem => if_neg (hother other hmem)]
    simp [hkey]

/-! ### Steps -/

variable {w w' : Calls}

theorem Exact.get (h : Exact cap w) (hstep : step cap w (.get key) = some w') : Exact cap w' := by
  cases hstep
  unfold ImageCache.get
  cases hfind : w.cache.map.find? key with
  | none => exact h
  | some hit =>
    obtain rfl := Table.key_of_find? hfind
    obtain ⟨front, back, hrows⟩ := List.append_of_mem (Table.mem_of_find? hfind)
    have hfree : (w.cache.map.filter (·.key ≠ hit.key)).find? hit.key = none := by
      rw [Table.find?_filter, hfind]
      simp
    have hnew := Table.rows_set_of_find?_eq_none hfree
    have hrecent := recent_filter h.recent hit.key
    rw [Table.rows_filter] at hnew
    refine ⟨?_, h.capped, ?_, fun _ _ _ hno => by cases hno⟩
    · show w.cache.bytes = byteTotal (Table.set _ hit).rows
      rw [hnew, h.count, filter_of_split hrows, hrows]
      simp
      omega
    · show (Table.set _ hit).rows.reverse.map (·.key) <+: _
      rw [hnew, List.reverse_append]
      exact (List.cons_prefix_cons).mpr ⟨rfl, hrecent⟩

theorem Exact.set (h : Exact cap w) {value : List UInt8} (hsingle : Single cap w (.set key value))
    (hstep : step cap w (.set key value) = some w') : Exact cap w' := by
  cases hstep
  by_cases hbig : cap < value.length
  · simp only [ImageCache.set, if_pos hbig]
    exact h
  have hlast : value.length ≤ cap := Nat.not_lt.mp hbig
  obtain ⟨hrows, hrest⟩ := rows_set (CachedImage.mk key value) (hsingle.resolve_left hbig)
  simp only [ImageCache.set, if_neg hbig]
  obtain ⟨kept, ⟨gone, hgone⟩, hkept, hcount, hfits⟩ :=
    @evict_concat cap ⟨w.cache.map.set ⟨key, value⟩, w.cache.bytes + value.length⟩ _ _ hlast hrows (by
      rw [byteTotal_append, hrest, h.count]
      simp)
  rw [← hrows] at hkept hcount
  refine ⟨hkept ▸ hcount, hcount ▸ hfits, ?_, fun _ _ _ hsame => ?_⟩
  · have hrecent := recent_filter h.recent key
    rw [← hgone, List.reverse_append, List.map_append] at hrecent
    rw [hkept, List.reverse_append]
    exact (List.cons_prefix_cons).mpr ⟨rfl, (List.prefix_append ..).trans hrecent⟩
  · cases hsame
    refine Table.find?_key (?_ : CachedImage.mk key value ∈ _)
    rw [hkept]
    simp

/-- While no set is of a key that is stored, the count is exact and within the cap, what is stored was used after what was
evicted, and an image within the cap is stored right after its set. -/
theorem exact_of_single {w : Calls} (h : Runs.Run (step cap) (Single cap) {} w) : Exact cap w := by
  refine h.invariant (P := Exact cap) (fun _ a _ hm hsingle hstep => ?_)
    ⟨rfl, Int.natCast_nonneg _, List.nil_prefix, fun _ _ _ hno => by cases hno⟩
  cases a with
  | get key => exact hm.get hstep
  | set key value => exact hm.set hsingle hstep

instance (w : Calls) (a : Call) : Decidable (Single cap w a) :=
  match a with
  | .get _ => .isTrue trivial
  | .set key value => inferInstanceAs (Decidable (cap < value.length ∨
      ∀ old ∈ w.cache.map.find? key, old.value = [] ∧ w.cache.map.rows.getLast? = some old))

/-- Three images under a cap that holds two of them: the one in the middle goes, since the first was looked at again. -/
theorem exact_of_single_evicted : ∃ w, Runs.Run (step 2) (Single 2) {} w ∧
    recent w.uses = ["c", "a", "b"] ∧ w.cache.bytes = byteTotal w.cache.map.rows ∧ w.cache.bytes = 2 ∧
    w.cache.map.find? "b" = none := by
  have hexec : (Runs.exec (step 2) (Single 2) {} [.set "a" [1], .set "b" [2], .get "a", .set "c" [3]]).any (fun w =>
      decide (recent w.uses = ["c", "a", "b"] ∧ w.cache.bytes = 2 ∧ w.cache.map.find? "b" = none)) = true := by
    decide +kernel
  obtain ⟨w, hrun, hw⟩ := Runs.exists_run_of_exec hexec
  obtain ⟨huses, hbytes, hgone⟩ := of_decide_eq_true hw
  exact ⟨w, hrun, huses, (exact_of_single hrun).count, hbytes, hgone⟩

/-- Two overlapping loads of an image that fills the cache: the second set throws it out. -/
theorem second_set_evicts : ¬∀ w, Runs.Run (step 1) (fun _ _ => True) {} w → Exact 1 w := by
  intro h
  have hexec : (Runs.exec (step 1) (fun _ _ => True) {} [.get "a", .get "a", .set "a" [1], .set "a" [1]]).any (fun w =>
      decide (w.cache.bytes ≠ byteTotal w.cache.map.rows ∧ w.cache.map.find? "a" = none)) = true := by
    decide +kernel
  obtain ⟨w, hrun, hw⟩ := Runs.exists_run_of_exec hexec
  exact (of_decide_eq_true hw).1 (h w hrun).count

end ImageCache

end Sightr
