import Sightr.Lib.Table
import Mathlib.Data.List.Induction

/-!
# File trees with symbolic links

A file tree is a table of nodes by their path from the top: folders, files and symbolic links. A path is resolved
as an operating system does it: segment by segment, each link replaced by its target, with a bound on how many
links one resolution follows.

## Main definitions

* `FileTree`: folders, files and links; every node but those at the top lies in a folder.
* `FileTree.walk`: resolution of a path from a folder.
* `FileTree.realpath`: resolution from the top.
* `FileTree.IsReal`: a path that names a folder or a file and has no link in it.

## Main results

* `FileTree.isReal_realpath`: a resolved path is real.
* `FileTree.realpath_of_isReal`: a real path resolves to itself.
* `FileTree.realpath_append`: below a resolved folder, real paths resolve as they are.
* `FileTree.eq_of_realpath`: without links a path resolves to itself.
-/

open Keyed

/-- A segment of a path that is to be resolved. -/
inductive PathStep (α : Type*)
  | up
  | down (name : α)
  deriving DecidableEq

/-- What a symbolic link says: a path from the top, or from the folder the link is in. -/
structure LinkTarget (α : Type*) where
  absolute : Bool
  steps : List (PathStep α)
  deriving DecidableEq

inductive FileKind (α ι : Type*)
  | dir
  | file (info : ι)
  | link (target : LinkTarget α)
  deriving DecidableEq

structure FileNode (α ι : Type*) where
  path : List α
  kind : FileKind α ι
  deriving DecidableEq

/-- Nodes by their path from the top; the top itself is a folder, and no node. -/
structure FileTree (α ι : Type*) [DecidableEq α] where
  nodes : Table (FileNode.path (α := α) (ι := ι))
  /-- The top is no node. -/
  below : ∀ n ∈ nodes.rows, n.path ≠ []
  /-- A node is at the top or in a folder. -/
  parent : ∀ n ∈ nodes.rows, n.path.dropLast = [] ∨ (nodes.find? n.path.dropLast).map FileNode.kind = some .dir

namespace FileTree

section Down

variable {α : Type*}

/-- A path without `..`. -/
def down (p : List α) : List (PathStep α) := p.map PathStep.down

@[simp] theorem down_nil : down ([] : List α) = [] := rfl

@[simp] theorem down_cons (name : α) (p : List α) : down (name :: p) = .down name :: down p := rfl

@[simp] theorem down_append (p q : List α) : down (p ++ q) = down p ++ down q := List.map_append

end Down

variable {α ι : Type*} [DecidableEq α] (t : FileTree α ι)

/-- What is at a path, links not followed. -/
def kind? (p : List α) : Option (FileKind α ι) :=
  if p = [] then some .dir else (t.nodes.find? p).map FileNode.kind

/-- The nodes in a folder, in the order the system lists them. -/
def readdir (p : List α) : List (FileNode α ι) := t.nodes.rows.filter fun n => n.path.dropLast = p

/-- Resolution from a real folder, links resolved by `follow`. A file ends the path. -/
def walkWith (follow : List α → List (PathStep α) → Option (List α)) : List α → List (PathStep α) → Option (List α)
  | cur, [] => some cur
  | cur, .up :: rest => walkWith follow cur.dropLast rest
  | cur, .down name :: rest =>
    match t.kind? (cur ++ [name]) with
    | none => none
    | some .dir => walkWith follow (cur ++ [name]) rest
    | some (.file _) => if rest.isEmpty then some (cur ++ [name]) else none
    | some (.link target) => follow (if target.absolute then [] else cur) (target.steps ++ rest)

/-- Resolution that follows at most so many links. -/
def walk : Nat → List α → List (PathStep α) → Option (List α)
  | 0 => t.walkWith fun _ _ => none
  | links + 1 => t.walkWith (walk links)

/-- A path without `..` from the top, resolved. -/
def realpath (links : Nat) (p : List α) : Option (List α) := t.walk links [] (down p)

/-- What a path names, its last segment not followed. -/
def lstat (links : Nat) (p : List α) : Option (FileKind α ι) :=
  match p.getLast? with
  | none => some .dir
  | some name => (t.realpath links p.dropLast).bind fun folder => t.kind? (folder ++ [name])

/-! ### Real paths -/

/-- The path names a folder or a file, and no segment of it is a link. -/
def IsReal (p : List α) : Prop := t.kind? p = some .dir ∨ ∃ info, t.kind? p = some (.file info)

variable {p : List α}

theorem isReal_of_dir (h : t.kind? p = some .dir) : t.IsReal p := .inl h

theorem isReal_of_file {info : ι} (h : t.kind? p = some (.file info)) : t.IsReal p := .inr ⟨info, h⟩

theorem exists_kind_of_isReal (h : t.IsReal p) : ∃ kind, t.kind? p = some kind :=
  h.elim (fun hdir => ⟨_, hdir⟩) fun ⟨_, hfile⟩ => ⟨_, hfile⟩

@[simp] theorem kind?_nil : t.kind? [] = some .dir := rfl

variable {name : α}

theorem kind?_of_kind?_append {kind : FileKind α ι} (h : t.kind? (p ++ [name]) = some kind) :
    t.kind? p = some .dir := by
  by_cases hp : p = []
  · rw [hp]
    rfl
  · rw [kind?, if_neg (by simp)] at h
    obtain ⟨n, hn, -⟩ := Option.map_eq_some_iff.mp h
    have hpath := Table.key_of_find? hn
    have hparent := t.parent n (Table.mem_of_find? hn)
    rw [hpath, List.dropLast_concat] at hparent
    rw [kind?, if_neg hp]
    exact hparent.resolve_left hp

variable {q : List α}

theorem isReal_of_append (h : t.IsReal (p ++ q)) : t.IsReal p := by
  induction q using List.reverseRecOn with
  | nil => simpa using h
  | append_singleton q name ih =>
    rw [← List.append_assoc] at h
    obtain ⟨kind, hkind⟩ := t.exists_kind_of_isReal h
    exact ih (t.isReal_of_dir (t.kind?_of_kind?_append hkind))

theorem kind?_of_isReal_append (h : t.IsReal (p ++ name :: q)) : t.kind? p = some .dir := by
  have hreal : t.IsReal (p ++ [name]) := t.isReal_of_append (q := q) (by simpa using h)
  obtain ⟨kind, hkind⟩ := t.exists_kind_of_isReal hreal
  exact t.kind?_of_kind?_append hkind

/-! ### Resolution -/

section Walk

variable (follow : List α → List (PathStep α) → Option (List α))

/-- A resolution that starts in a folder ends at a real path, if the links do. -/
theorem isReal_walkWith (hfollow : ∀ cur steps p, t.kind? cur = some .dir → follow cur steps = some p → t.IsReal p)
    (steps : List (PathStep α)) (cur p : List α) (hcur : t.kind? cur = some .dir)
    (h : t.walkWith follow cur steps = some p) : t.IsReal p := by
  induction steps generalizing cur with
  | nil =>
    cases h
    exact t.isReal_of_dir hcur
  | cons step rest ih =>
    cases step with
    | up =>
      refine ih cur.dropLast ?_ h
      cases hlast : cur.getLast? with
      | none =>
        rw [List.getLast?_eq_none_iff.mp hlast]
        rfl
      | some name =>
        have happend := List.dropLast_append_getLast? name hlast
        rw [← happend] at hcur
        exact t.kind?_of_kind?_append hcur
    | down name =>
      rw [walkWith] at h
      split at h
      · cases h
      · rename_i hkind
        exact ih _ hkind h
      · rename_i info hkind
        split_ifs at h
        cases h
        exact t.isReal_of_file hkind
      · refine hfollow _ _ p ?_ h
        split_ifs
        · rfl
        · exact hcur

variable {cur q : List α}

theorem walkWith_down (h : t.IsReal (cur ++ q)) : t.walkWith follow cur (down q) = some (cur ++ q) := by
  induction q generalizing cur with
  | nil => simp [walkWith]
  | cons name q ih =>
    rw [List.append_cons] at h ⊢
    rw [down_cons, walkWith]
    cases q with
    | nil =>
      rw [List.append_nil] at h ⊢
      obtain hdir | ⟨info, hfile⟩ := h
      · simp [hdir, walkWith]
      · simp [hfile]
    | cons next q =>
      rw [t.kind?_of_isReal_append h]
      exact ih h

/-- After a resolution that ended in a folder, a real path below it is walked as it is. -/
theorem walkWith_append_down (hfollow : ∀ cur steps p q, follow cur steps = some p → q ≠ [] → t.IsReal (p ++ q) →
      follow cur (steps ++ down q) = some (p ++ q))
    {steps : List (PathStep α)} {p : List α} (h : t.walkWith follow cur steps = some p) (hq : q ≠ [])
    (hreal : t.IsReal (p ++ q)) : t.walkWith follow cur (steps ++ down q) = some (p ++ q) := by
  induction steps generalizing cur with
  | nil =>
    cases h
    exact t.walkWith_down follow hreal
  | cons step rest ih =>
    cases step with
    | up => exact ih h
    | down name =>
      rw [walkWith] at h
      rw [List.cons_append, walkWith]
      split at h
      · cases h
      · rename_i hkind
        exact ih h
      · rename_i info hkind
        split_ifs at h
        cases h
        -- A file has nothing below it.
        obtain ⟨next, q, rfl⟩ := List.exists_cons_of_ne_nil hq
        rw [t.kind?_of_isReal_append hreal] at hkind
        cases hkind
      · rw [← List.append_assoc]
        exact hfollow _ _ _ _ h hq hreal

end Walk

theorem isReal_walk (links : Nat) (steps : List (PathStep α)) (cur p : List α) (hcur : t.kind? cur = some .dir)
    (h : t.walk links cur steps = some p) : t.IsReal p := by
  induction links generalizing cur steps p with
  | zero => exact t.isReal_walkWith _ (fun _ _ _ _ hnone => by cases hnone) steps cur p hcur h
  | succ links ih => exact t.isReal_walkWith _ (fun cur steps p hcur h => ih steps cur p hcur h) steps cur p hcur h

variable {links : Nat} {r : List α}

theorem isReal_realpath (h : t.realpath links p = some r) : t.IsReal r := t.isReal_walk links _ _ _ t.kind?_nil h

theorem realpath_of_isReal (links : Nat) (h : t.IsReal p) : t.realpath links p = some p := by
  have hwalk (follow) : t.walkWith follow [] (down p) = some p := t.walkWith_down follow (by simpa using h)
  cases links with
  | zero => exact hwalk _
  | succ links => exact hwalk _

/-- Below a resolved path, a real path resolves as it is. -/
theorem realpath_append (h : t.realpath links p = some r) (hreal : t.IsReal (r ++ q)) :
    t.realpath links (p ++ q) = some (r ++ q) := by
  by_cases hq : q = []
  · simpa [hq] using h
  · have hwalk : ∀ (n : Nat) (cur : List α) (steps : List (PathStep α)) (r q : List α), t.walk n cur steps = some r →
        q ≠ [] → t.IsReal (r ++ q) → t.walk n cur (steps ++ down q) = some (r ++ q) := by
      intro n
      induction n with
      | zero =>
        intro cur steps r q h hq hreal
        exact t.walkWith_append_down _ (fun _ _ _ _ hnone => by cases hnone) h hq hreal
      | succ n ih =>
        intro cur steps r q h hq hreal
        exact t.walkWith_append_down _ ih h hq hreal
    rw [realpath, down_append]
    exact hwalk links [] (down p) r q h hq hreal

/-- Without links a path resolves to itself or not at all. -/
theorem eq_of_realpath (hlinks : ∀ p target, t.kind? p ≠ some (.link target)) (h : t.realpath links p = some r) :
    r = p := by
  have hwalk : ∀ follow (cur q : List α), t.walkWith follow cur (down q) = some r → r = cur ++ q := by
    intro follow cur q h
    induction q generalizing cur with
    | nil => simpa [walkWith] using h.symm
    | cons name q ih =>
      rw [down_cons, walkWith] at h
      rw [List.append_cons]
      split at h
      · cases h
      · exact ih _ h
      · split_ifs at h with hempty
        cases q with
        | nil => simpa using h.symm
        | cons next q => simp at hempty
      · rename_i target hkind
        exact absurd hkind (hlinks _ target)
  cases links with
  | zero => exact hwalk _ [] p h
  | succ links => exact hwalk _ [] p h

/-! ### The nodes of a folder -/

theorem kind?_of_mem_readdir {n : FileNode α ι} (h : n ∈ t.readdir p) :
    t.kind? n.path = some n.kind ∧ ∃ name, n.path = p ++ [name] := by
  obtain ⟨hn, hdir⟩ := List.mem_filter.mp h
  have hne := t.below n hn
  refine ⟨?_, n.path.getLast hne, ?_⟩
  · rw [kind?, if_neg hne, Table.find?_key hn]
    rfl
  · rw [← of_decide_eq_true hdir, List.dropLast_append_getLast hne]

end FileTree
