import Mathlib.Data.List.Basic

/-!
# Tree objects

Trees of named entries, as an object store keeps them: an entry is a blob or another tree. A path is a list of
names, and the paths of a tree are those of its blobs and of its folders.

## Main definitions

* `TreeObject`: a tree as its list of entries.
* `TreeObject.insert`: a tree with an entry put at a path, the folders on the way made.
* `TreeObject.prune`: a tree without what is at or below some paths.

## Main results

* `TreeObject.mem_paths_insert`, `mem_blobs_insert`: what an insertion brings in.
* `TreeObject.mem_paths_prune`: what a pruned tree has left.
* `TreeObject.mem_paths_of_isPrefix`: the folders on the way to a path are paths of the tree.
-/

/-- A tree as its list of entries. -/
inductive TreeObject (ν β : Type*)
  | nil
  | blob (name : ν) (info : β) (rest : TreeObject ν β)
  | tree (name : ν) (sub rest : TreeObject ν β)
  deriving DecidableEq

namespace TreeObject

variable {ν β : Type*}

/-- What is put at a path. -/
inductive Item (ν β : Type*)
  | blob (info : β)
  | tree (sub : TreeObject ν β)

/-- The paths in a tree, each folder before what is in it. -/
def paths : TreeObject ν β → List (List ν)
  | nil => []
  | blob name _ rest => [name] :: rest.paths
  | tree name sub rest => [name] :: (sub.paths.map (name :: ·) ++ rest.paths)

/-- The blobs in a tree, with their paths. -/
def blobs : TreeObject ν β → List (List ν × β)
  | nil => []
  | blob name info rest => ([name], info) :: rest.blobs
  | tree name sub rest => sub.blobs.map (fun b => (name :: b.1, b.2)) ++ rest.blobs

@[simp] theorem paths_nil : (nil : TreeObject ν β).paths = [] := rfl

variable {name : ν} {info : β} {rest : TreeObject ν β} {p : List ν}

@[simp] theorem mem_paths_blob : p ∈ (blob name info rest).paths ↔ p = [name] ∨ p ∈ rest.paths := List.mem_cons

variable {sub : TreeObject ν β}

@[simp] theorem mem_paths_tree :
    p ∈ (tree name sub rest).paths ↔ p = [name] ∨ (∃ q ∈ sub.paths, name :: q = p) ∨ p ∈ rest.paths := by
  simp [paths]

@[simp] theorem blobs_nil : (nil : TreeObject ν β).blobs = [] := rfl

variable {b : List ν × β}

@[simp] theorem mem_blobs_blob :
    b ∈ (blob name info rest).blobs ↔ b = ([name], info) ∨ b ∈ rest.blobs := List.mem_cons

@[simp] theorem mem_blobs_tree :
    b ∈ (tree name sub rest).blobs ↔ (∃ c ∈ sub.blobs, (name :: c.1, c.2) = b) ∨ b ∈ rest.blobs := by
  simp [blobs]

variable {q : List ν}

theorem eq_of_isPrefix_singleton (hne : q ≠ []) (h : q <+: [name]) : q = [name] := by
  obtain ⟨s, rfl, hs⟩ := (List.prefix_cons_iff.mp h).resolve_left hne
  rw [List.prefix_nil.mp hs]

variable {t : TreeObject ν β}

theorem ne_nil_of_mem_paths (h : p ∈ t.paths) : p ≠ [] := by
  induction t with
  | nil => cases h
  | blob name info rest ih =>
    obtain rfl | h := mem_paths_blob.mp h
    · exact List.cons_ne_nil _ _
    · exact ih h
  | tree name sub rest _ ih =>
    obtain rfl | ⟨q, -, rfl⟩ | h := mem_paths_tree.mp h
    · exact List.cons_ne_nil _ _
    · exact List.cons_ne_nil _ _
    · exact ih h

theorem mem_paths_of_isPrefix (h : p ∈ t.paths) (hne : q ≠ []) (hq : q <+: p) : q ∈ t.paths := by
  induction t generalizing p q with
  | nil => cases h
  | blob name info rest ih =>
    obtain rfl | h := mem_paths_blob.mp h
    · obtain rfl := eq_of_isPrefix_singleton hne hq
      exact mem_paths_blob.mpr (.inl rfl)
    · exact mem_paths_blob.mpr (.inr (ih h hne hq))
  | tree name sub rest ihsub ih =>
    obtain rfl | ⟨r, hr, rfl⟩ | h := mem_paths_tree.mp h
    · obtain rfl := eq_of_isPrefix_singleton hne hq
      exact mem_paths_tree.mpr (.inl rfl)
    · obtain ⟨s, rfl, hs⟩ := (List.prefix_cons_iff.mp hq).resolve_left hne
      by_cases hnil : s = []
      · exact mem_paths_tree.mpr (.inl (by rw [hnil]))
      · exact mem_paths_tree.mpr (.inr (.inl ⟨s, ihsub hr hnil hs, rfl⟩))
    · exact mem_paths_tree.mpr (.inr (.inr (ih h hne hq)))

/-! ### Putting an entry at a path -/

/-- The entry at a path of its own, before the rest. -/
def chain : List ν → Item ν β → TreeObject ν β → TreeObject ν β
  | [], _, rest => rest
  | [name], .blob info, rest => blob name info rest
  | [name], .tree sub, rest => tree name sub rest
  | name :: next :: path, item, rest => tree name (chain (next :: path) item nil) rest

variable [DecidableEq ν]

/-- The tree with an entry put at a path. `lt` is the order of the entries. -/
def insert (lt : ν → ν → Bool) : TreeObject ν β → List ν → Item ν β → TreeObject ν β
  | t, [], _ => t
  | nil, name :: path, item => chain (name :: path) item nil
  | blob n info rest, name :: path, item =>
    if n = name then chain (name :: path) item rest
    else if lt name n then chain (name :: path) item (blob n info rest)
    else blob n info (insert lt rest (name :: path) item)
  | tree n sub rest, [name], item =>
    if n = name then chain [name] item rest
    else if lt name n then chain [name] item (tree n sub rest)
    else tree n sub (insert lt rest [name] item)
  | tree n sub rest, name :: next :: path, item =>
    if n = name then tree n (insert lt sub (next :: path) item) rest
    else if lt name n then chain (name :: next :: path) item (tree n sub rest)
    else tree n sub (insert lt rest (name :: next :: path) item)

/-- The paths an entry has when it is put at a path. -/
def Item.Brings (item : Item ν β) (path p : List ν) : Prop :=
  p <+: path ∨ ∃ sub, item = .tree sub ∧ ∃ q ∈ sub.paths, path ++ q = p

/-- The blobs an entry has when it is put at a path. -/
def Item.Holds (item : Item ν β) (path : List ν) (b : List ν × β) : Prop :=
  (∃ info, item = .blob info ∧ b = (path, info)) ∨ ∃ sub, item = .tree sub ∧ ∃ c ∈ sub.blobs, (path ++ c.1, c.2) = b

omit [DecidableEq ν] in
theorem Item.Brings.cons {item : Item ν β} {path p : List ν} (h : item.Brings path p) (name : ν) :
    item.Brings (name :: path) (name :: p) := by
  obtain h | ⟨sub, rfl, q, hq, rfl⟩ := h
  · exact .inl (List.prefix_cons_inj name |>.mpr h)
  · exact .inr ⟨sub, rfl, q, hq, rfl⟩

omit [DecidableEq ν] in
theorem Item.Holds.cons {item : Item ν β} {path : List ν} {b : List ν × β} (h : item.Holds path b) (name : ν) :
    item.Holds (name :: path) (name :: b.1, b.2) := by
  obtain ⟨info, rfl, rfl⟩ | ⟨sub, rfl, c, hc, rfl⟩ := h
  · exact .inl ⟨info, rfl, rfl⟩
  · exact .inr ⟨sub, rfl, c, hc, rfl⟩

variable {path : List ν} {item : Item ν β}

omit [DecidableEq ν] in
theorem mem_paths_chain (h : p ∈ (chain path item rest).paths) : item.Brings path p ∨ p ∈ rest.paths := by
  induction path generalizing rest p with
  | nil => exact .inr h
  | cons name path ih =>
    cases path with
    | nil =>
      cases item with
      | blob info =>
        obtain rfl | h := mem_paths_blob.mp h
        · exact .inl (.inl (List.prefix_refl _))
        · exact .inr h
      | tree sub =>
        obtain rfl | ⟨q, hq, rfl⟩ | h := mem_paths_tree.mp h
        · exact .inl (.inl (List.prefix_refl _))
        · exact .inl (.inr ⟨sub, rfl, q, hq, rfl⟩)
        · exact .inr h
    | cons next path =>
      obtain rfl | ⟨q, hq, rfl⟩ | h := mem_paths_tree.mp h
      · exact .inl (.inl (List.prefix_append [name] (next :: path)))
      · exact .inl ((ih hq).resolve_right (by simp) |>.cons name)
      · exact .inr h

omit [DecidableEq ν] in
theorem mem_blobs_chain (h : b ∈ (chain path item rest).blobs) : item.Holds path b ∨ b ∈ rest.blobs := by
  induction path generalizing rest b with
  | nil => exact .inr h
  | cons name path ih =>
    cases path with
    | nil =>
      cases item with
      | blob info =>
        obtain rfl | h := mem_blobs_blob.mp h
        · exact .inl (.inl ⟨info, rfl, rfl⟩)
        · exact .inr h
      | tree sub =>
        obtain ⟨c, hc, rfl⟩ | h := mem_blobs_tree.mp h
        · exact .inl (.inr ⟨sub, rfl, c, hc, rfl⟩)
        · exact .inr h
    | cons next path =>
      obtain ⟨c, hc, rfl⟩ | h := mem_blobs_tree.mp h
      · exact .inl ((ih hc).resolve_right (by simp) |>.cons name)
      · exact .inr h

variable {lt : ν → ν → Bool}

theorem mem_paths_insert (h : p ∈ (t.insert lt path item).paths) : p ∈ t.paths ∨ item.Brings path p := by
  induction t generalizing path p with
  | nil =>
    cases path with
    | nil => exact .inl h
    | cons name path => exact (mem_paths_chain h).symm
  | blob n info rest ih =>
    cases path with
    | nil => exact .inl h
    | cons name path =>
      rw [insert] at h
      split_ifs at h
      · exact (mem_paths_chain h).symm.imp_left fun h => mem_paths_blob.mpr (.inr h)
      · exact (mem_paths_chain h).symm
      · obtain rfl | h := mem_paths_blob.mp h
        · exact .inl (mem_paths_blob.mpr (.inl rfl))
        · exact (ih h).imp_left fun h => mem_paths_blob.mpr (.inr h)
  | tree n sub rest ihsub ih =>
    cases path with
    | nil => exact .inl h
    | cons name path =>
      cases path with
      | nil =>
        rw [insert] at h
        split_ifs at h
        · exact (mem_paths_chain h).symm.imp_left fun h => mem_paths_tree.mpr (.inr (.inr h))
        · exact (mem_paths_chain h).symm
        · obtain rfl | ⟨q, hq, rfl⟩ | h := mem_paths_tree.mp h
          · exact .inl (mem_paths_tree.mpr (.inl rfl))
          · exact .inl (mem_paths_tree.mpr (.inr (.inl ⟨q, hq, rfl⟩)))
          · exact (ih h).imp_left fun h => mem_paths_tree.mpr (.inr (.inr h))
      | cons next path =>
        rw [insert] at h
        split_ifs at h with hname
        · obtain rfl | ⟨q, hq, rfl⟩ | h := mem_paths_tree.mp h
          · exact .inl (mem_paths_tree.mpr (.inl rfl))
          · refine (ihsub hq).imp (fun h => mem_paths_tree.mpr (.inr (.inl ⟨q, h, rfl⟩))) fun h => ?_
            rw [hname]
            exact h.cons name
          · exact .inl (mem_paths_tree.mpr (.inr (.inr h)))
        · exact (mem_paths_chain h).symm
        · obtain rfl | ⟨q, hq, rfl⟩ | h := mem_paths_tree.mp h
          · exact .inl (mem_paths_tree.mpr (.inl rfl))
          · exact .inl (mem_paths_tree.mpr (.inr (.inl ⟨q, hq, rfl⟩)))
          · exact (ih h).imp_left fun h => mem_paths_tree.mpr (.inr (.inr h))

theorem mem_blobs_insert (h : b ∈ (t.insert lt path item).blobs) : b ∈ t.blobs ∨ item.Holds path b := by
  induction t generalizing path b with
  | nil =>
    cases path with
    | nil => exact .inl h
    | cons name path => exact (mem_blobs_chain h).symm
  | blob n info rest ih =>
    cases path with
    | nil => exact .inl h
    | cons name path =>
      rw [insert] at h
      split_ifs at h
      · exact (mem_blobs_chain h).symm.imp_left fun h => mem_blobs_blob.mpr (.inr h)
      · exact (mem_blobs_chain h).symm
      · obtain rfl | h := mem_blobs_blob.mp h
        · exact .inl (mem_blobs_blob.mpr (.inl rfl))
        · exact (ih h).imp_left fun h => mem_blobs_blob.mpr (.inr h)
  | tree n sub rest ihsub ih =>
    cases path with
    | nil => exact .inl h
    | cons name path =>
      cases path with
      | nil =>
        rw [insert] at h
        split_ifs at h
        · exact (mem_blobs_chain h).symm.imp_left fun h => mem_blobs_tree.mpr (.inr h)
        · exact (mem_blobs_chain h).symm
        · obtain ⟨c, hc, rfl⟩ | h := mem_blobs_tree.mp h
          · exact .inl (mem_blobs_tree.mpr (.inl ⟨c, hc, rfl⟩))
          · exact (ih h).imp_left fun h => mem_blobs_tree.mpr (.inr h)
      | cons next path =>
        rw [insert] at h
        split_ifs at h with hname
        · obtain ⟨c, hc, rfl⟩ | h := mem_blobs_tree.mp h
          · refine (ihsub hc).imp (fun h => mem_blobs_tree.mpr (.inl ⟨c, h, rfl⟩)) fun h => ?_
            rw [hname]
            exact h.cons name
          · exact .inl (mem_blobs_tree.mpr (.inr h))
        · exact (mem_blobs_chain h).symm
        · obtain ⟨c, hc, rfl⟩ | h := mem_blobs_tree.mp h
          · exact .inl (mem_blobs_tree.mpr (.inl ⟨c, hc, rfl⟩))
          · exact (ih h).imp_left fun h => mem_blobs_tree.mpr (.inr h)

/-! ### Finding and cutting -/

def folder? : TreeObject ν β → List ν → Option (TreeObject ν β)
  | _, [] => none
  | nil, _ :: _ => none
  | blob _ _ rest, name :: path => rest.folder? (name :: path)
  | tree n sub rest, [name] => if n = name then some sub else rest.folder? [name]
  | tree n sub rest, name :: next :: path =>
    if n = name then sub.folder? (next :: path) else rest.folder? (name :: next :: path)

/-- What of the paths lies below an entry, as seen from there. -/
def belowOf (name : ν) (drop : List (List ν)) : List (List ν) :=
  drop.filterMap fun
    | n :: next :: path => if n = name then some (next :: path) else none
    | _ => none

/-- The tree without what is at or below the paths. -/
def prune : TreeObject ν β → List (List ν) → TreeObject ν β
  | nil, _ => nil
  | blob name info rest, drop => if [name] ∈ drop then rest.prune drop else blob name info (rest.prune drop)
  | tree name sub rest, drop =>
    if [name] ∈ drop then rest.prune drop
    else tree name (if belowOf name drop = [] then sub else sub.prune (belowOf name drop)) (rest.prune drop)

variable {drop : List (List ν)}

theorem mem_belowOf {d : List ν} : d ∈ belowOf name drop ↔ d ≠ [] ∧ name :: d ∈ drop := by
  rw [belowOf, List.mem_filterMap]
  constructor
  · rintro ⟨e, he, h⟩
    split at h
    · rename_i n next path
      split_ifs at h with hname
      cases h
      exact ⟨List.cons_ne_nil _ _, hname ▸ he⟩
    · cases h
  · rintro ⟨hne, hd⟩
    obtain ⟨next, path, rfl⟩ := List.exists_cons_of_ne_nil hne
    exact ⟨_, hd, if_pos rfl⟩

/-- Is a path cut, as it lies at or below one of those given? -/
def Cut (drop : List (List ν)) (p : List ν) : Prop := ∃ d ∈ drop, d ≠ [] ∧ d <+: p

omit [DecidableEq ν] in
theorem cut_singleton : Cut drop [name] ↔ [name] ∈ drop := by
  constructor
  · rintro ⟨d, hd, hne, hp⟩
    rwa [eq_of_isPrefix_singleton hne hp] at hd
  · exact fun h => ⟨_, h, List.cons_ne_nil _ _, List.prefix_refl _⟩

theorem cut_cons : Cut drop (name :: p) ↔ [name] ∈ drop ∨ Cut (belowOf name drop) p := by
  constructor
  · rintro ⟨d, hd, hne, hp⟩
    obtain ⟨s, rfl, hs⟩ := (List.prefix_cons_iff.mp hp).resolve_left hne
    by_cases hnil : s = []
    · rw [hnil] at hd
      exact .inl hd
    · exact .inr ⟨s, mem_belowOf.mpr ⟨hnil, hd⟩, hnil, hs⟩
  · rintro (h | ⟨d, hd, -, hp⟩)
    · exact ⟨_, h, List.cons_ne_nil _ _, List.prefix_append [name] p⟩
    · exact ⟨_, (mem_belowOf.mp hd).2, List.cons_ne_nil _ _, (List.prefix_cons_inj name).mpr hp⟩

theorem mem_paths_prune : p ∈ (t.prune drop).paths ↔ p ∈ t.paths ∧ ¬ Cut drop p := by
  induction t generalizing drop p with
  | nil => simp [prune]
  | blob name info rest ih =>
    rw [prune]
    split_ifs with hname
    · rw [ih, mem_paths_blob]
      constructor
      · exact fun ⟨h, hcut⟩ => ⟨.inr h, hcut⟩
      · rintro ⟨rfl | h, hcut⟩
        · exact absurd (cut_singleton.mpr hname) hcut
        · exact ⟨h, hcut⟩
    · rw [mem_paths_blob, mem_paths_blob, ih]
      constructor
      · rintro (rfl | ⟨h, hcut⟩)
        · exact ⟨.inl rfl, fun hcut => hname (cut_singleton.mp hcut)⟩
        · exact ⟨.inr h, hcut⟩
      · rintro ⟨rfl | h, hcut⟩
        · exact .inl rfl
        · exact .inr ⟨h, hcut⟩
  | tree name sub rest ihsub ih =>
    have hsub : ∀ q, q ∈ (if belowOf name drop = [] then sub else sub.prune (belowOf name drop)).paths ↔
        q ∈ sub.paths ∧ ¬ Cut (belowOf name drop) q := by
      intro q
      split_ifs with hbelow
      · rw [hbelow]
        exact ⟨fun h => ⟨h, fun ⟨_, hd, _⟩ => by cases hd⟩, And.left⟩
      · exact ihsub
    by_cases hname : [name] ∈ drop
    · rw [prune, if_pos hname, ih, mem_paths_tree]
      constructor
      · exact fun ⟨h, hcut⟩ => ⟨.inr (.inr h), hcut⟩
      · rintro ⟨rfl | ⟨q, -, rfl⟩ | h, hcut⟩
        · exact absurd (cut_singleton.mpr hname) hcut
        · exact absurd (cut_cons.mpr (.inl hname)) hcut
        · exact ⟨h, hcut⟩
    · rw [prune, if_neg hname, mem_paths_tree, mem_paths_tree, ih]
      constructor
      · rintro (rfl | ⟨q, hq, rfl⟩ | ⟨h, hcut⟩)
        · exact ⟨.inl rfl, fun hcut => hname (cut_singleton.mp hcut)⟩
        · obtain ⟨hq, hkept⟩ := (hsub q).mp hq
          exact ⟨.inr (.inl ⟨q, hq, rfl⟩), fun hcut => (cut_cons.mp hcut).elim hname hkept⟩
        · exact ⟨.inr (.inr h), hcut⟩
      · rintro ⟨rfl | ⟨q, hq, rfl⟩ | h, hcut⟩
        · exact .inl rfl
        · exact .inr (.inl ⟨q, (hsub q).mpr ⟨hq, fun hbelow => hcut (cut_cons.mpr (.inr hbelow))⟩, rfl⟩)
        · exact .inr (.inr ⟨h, hcut⟩)

theorem mem_blobs_of_prune (h : b ∈ (t.prune drop).blobs) : b ∈ t.blobs := by
  induction t generalizing drop b with
  | nil => exact h
  | blob name info rest ih =>
    rw [prune] at h
    split_ifs at h
    · exact mem_blobs_blob.mpr (.inr (ih h))
    · exact mem_blobs_blob.mpr ((mem_blobs_blob.mp h).imp_right ih)
  | tree name sub rest ihsub ih =>
    rw [prune] at h
    split_ifs at h
    · exact mem_blobs_tree.mpr (.inr (ih h))
    · exact mem_blobs_tree.mpr ((mem_blobs_tree.mp h).imp_right ih)
    · obtain ⟨c, hc, rfl⟩ | h := mem_blobs_tree.mp h
      · exact mem_blobs_tree.mpr (.inl ⟨c, ihsub hc, rfl⟩)
      · exact mem_blobs_tree.mpr (.inr (ih h))

end TreeObject
