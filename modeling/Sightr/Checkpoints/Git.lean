import Sightr.Files.Names
import Sightr.Lib.FileTree
import Sightr.Lib.TreeObject

/-!
# What `git` does for a checkpoint

The index, the worktree and the calls of `git` that a snapshot of `bridge/threads/checkpoint-git.ts` makes, by git's
own rules: `update-index` with `--stdin` touches the paths it is given, `add` of a literal pathspec adds the path or
every file below it that is not ignored, and `write-tree` writes the index. A file's content is an object; an
embedded repository is one entry of the worktree, and the files in it count as ignored.
-/

namespace Sightr.Checkpoints

open Files

abbrev Path := List Name

def Path.text (p : Path) : PathText := List.intercalate ['/'] p

def hidden (windows : Bool) (p : Path) : Bool := isHiddenPath windows p.text

/-- A blob of the object store, named by its content. -/
structure Object where
  id : Nat
  bytes : Nat
  deriving DecidableEq

/-- What a leaf of a tree is: a file and its mode, a link, or the commit of an embedded repository. -/
inductive Blob
  | file (executable : Bool) (object : Object)
  | link (target : LinkTarget Name)
  | gitlink (object : Object)
  deriving DecidableEq

def Blob.bytes : Blob → Nat
  | .file _ object => object.bytes
  | .link _ | .gitlink _ => 0

abbrev Tree := TreeObject Name Blob

/-! ### The worktree -/

inductive FileInfo
  | file (executable : Bool) (size : Nat) (object : Object)
  | repo (object : Object)
  deriving DecidableEq

/-- The files of the repository's root, and the paths its ignore rules name. -/
structure Worktree where
  tree : FileTree Name FileInfo
  ignored : Path → Bool

namespace Worktree

variable (T : Worktree)

def blobOf : FileKind Name FileInfo → Option Blob
  | .dir => none
  | .file (.file executable _ object) => some (.file executable object)
  | .file (.repo object) => some (.gitlink object)
  | .link target => some (.link target)

/-- What `git` would record at a path; nothing at a folder. -/
def blob? (p : Path) : Option Blob := (T.tree.kind? p).bind blobOf

def leaves : List Path := (T.tree.nodes.rows.filter fun n => (blobOf n.kind).isSome).map FileNode.path

/-- What `lstat` finds, links on the way followed by the system. -/
def lstat (p : Path) : Option (FileKind Name FileInfo) := T.tree.lstat 40 p

def isDir (p : Path) : Bool := T.tree.kind? p = some .dir

def below (p : Path) : List Path := T.leaves.filter fun q => p.isPrefixOf q && q ≠ p && !T.ignored q

end Worktree

/-! ### The index -/

structure IndexEntry where
  path : Path
  blob : Blob
  stage : Nat
  skipWorktree : Bool
  deriving DecidableEq

/-- The temp index: its entries, and the folders outside a sparse cone, an entry each. -/
structure Index where
  entries : List IndexEntry := []
  folders : List (Path × Tree) := []

namespace Index

variable (x : Index)

def has (p : Path) : Bool := x.entries.any (·.path = p)

def remove (ps : List Path) : Index := { x with entries := x.entries.filter (·.path ∉ ps) }

def set (p : Path) (b : Blob) : Index := { x with entries := x.entries.filter (·.path ≠ p) ++ [⟨p, b, 0, false⟩] }

/-- `update-index --index-info` with the entries a path had. -/
def putBack (entries : List IndexEntry) : Index :=
  { x with entries := x.entries.filter (·.path ∉ entries.map IndexEntry.path) ++ entries }

variable (T : Worktree)

def updateOne (x : Index) (p : Path) : Index :=
  match T.blob? p with
  | some b => x.set p b
  | none => x.remove [p]

/-- `update-index --add --remove --stdin`: the paths as the worktree has them, and no other. -/
def update (ps : List Path) : Index := ps.foldl (updateOne T) x

/-- An entry that `add` makes takes the place of what was at the path, above it and below it. -/
def replace (x : Index) (p : Path) : Index :=
  match T.blob? p with
  | some b => { x with entries := x.entries.filter (fun e => !(e.path.isPrefixOf p || p.isPrefixOf e.path)) ++ [⟨p,
      b, 0, false⟩] }
  | none => x

/-- `add` of one literal pathspec: the path, or every file not ignored below it; what is gone is removed. -/
def addOne (unreadable : List Path) (x : Index) (p : Path) : Index :=
  if T.isDir p then
    ((T.below p).filter (· ∉ unreadable)).foldl (replace T)
      { x with entries := x.entries.filter fun e => !(p.isPrefixOf e.path && (T.blob? e.path).isNone) }
  else if (T.blob? p).isNone then { x with entries := x.entries.filter fun e => !p.isPrefixOf e.path }
  else if p ∈ unreadable then x
  else replace T x p

/-- `add --ignore-errors` of literal pathspecs, some of whose files cannot be read. -/
def add (unreadable ps : List Path) : Index := ps.foldl (addOne T unreadable) x

/-- A pathspec matches a path on disk or in the index. -/
def matchesSpec (p : Path) : Bool := (T.tree.kind? p).isSome || x.entries.any (p.isPrefixOf ·.path)

/-- `ls-files --others --exclude-standard`, embedded repositories left out. -/
def others : List Path := T.leaves.filter fun p =>
  !x.has p && !T.ignored p && !((T.blob? p).any fun | .gitlink _ => true | _ => false)

def nameLt (a b : Name) : Bool := decide (a < b)

/-- `write-tree`: an index with an unmerged path cannot be written. -/
def writeTree : Option Tree :=
  if x.entries.all (·.stage = 0) then
    some (x.folders.foldl (fun t f => t.insert nameLt f.1 (.tree f.2))
      (x.entries.foldl (fun t e => t.insert nameLt e.path (.blob e.blob)) .nil))
  else none

end Index

/-! ### Hidden paths -/

variable {p q : Path}

theorem text_append (hp : p ≠ []) (hq : q ≠ []) : Path.text (p ++ q) = p.text ++ '/' :: q.text := by
  induction p with
  | nil => exact absurd rfl hp
  | cons name p ih =>
    cases p with
    | nil =>
      obtain ⟨next, q, rfl⟩ := List.exists_cons_of_ne_nil hq
      simp [Path.text, List.intercalate]
    | cons next p =>
      have hcons : ∀ r : Path, Path.text (name :: next :: r) = name ++ '/' :: Path.text (next :: r) := by
        intro r
        simp [Path.text, List.intercalate]
      rw [List.cons_append, List.cons_append, hcons, ← List.cons_append, ih (List.cons_ne_nil _ _), hcons,
        List.append_assoc, List.cons_append]

variable {windows : Bool}

theorem hidden_append (hp : p ≠ []) (h : hidden windows p) (q : Path) : hidden windows (p ++ q) := by
  by_cases hq : q = []
  · rw [hq, List.append_nil]
    exact h
  · unfold hidden isHiddenPath at h ⊢
    rw [text_append hp hq, List.splitOn_append_cons_self, List.any_append, h, Bool.true_or]

theorem hidden_of_isPrefix (hp : p ≠ []) (h : hidden windows p) (hq : p <+: q) : hidden windows q := by
  obtain ⟨r, rfl⟩ := hq
  exact hidden_append hp h r

/-! ### What the calls bring in -/

variable {x : Index} {T : Worktree} {e : IndexEntry}

namespace Worktree

end Worktree

def Fresh (T : Worktree) (e : IndexEntry) : Prop := T.blob? e.path = some e.blob

variable {ps : List Path}

theorem mem_remove : e ∈ (x.remove ps).entries ↔ e ∈ x.entries ∧ e.path ∉ ps := by
  simp [Index.remove]

variable {entries : List IndexEntry}

theorem mem_putBack (h : e ∈ (x.putBack entries).entries) : e ∈ x.entries ∨ e ∈ entries :=
  (List.mem_append.mp h).imp_left fun h => (List.mem_filter.mp h).1

theorem mem_updateOne (h : e ∈ (x.updateOne T p).entries) : e ∈ x.entries ∨ (e.path = p ∧ Fresh T e) := by
  unfold Index.updateOne at h
  split at h
  · rename_i b hb
    obtain h | h := List.mem_append.mp h
    · exact .inl (List.mem_filter.mp h).1
    · obtain rfl := List.mem_singleton.mp h
      exact .inr ⟨rfl, hb⟩
  · exact .inl (mem_remove.mp h).1

theorem mem_update (h : e ∈ (x.update T ps).entries) : e ∈ x.entries ∨ (e.path ∈ ps ∧ Fresh T e) := by
  induction ps generalizing x with
  | nil => exact .inl h
  | cons p ps ih =>
    obtain h | ⟨hp, hfresh⟩ := ih h
    · exact (mem_updateOne h).imp_right fun ⟨hp, hfresh⟩ => ⟨hp ▸ List.mem_cons_self, hfresh⟩
    · exact .inr ⟨List.mem_cons_of_mem p hp, hfresh⟩

theorem mem_replace (h : e ∈ (x.replace T p).entries) : e ∈ x.entries ∨ (e.path = p ∧ Fresh T e) := by
  unfold Index.replace at h
  split at h
  · rename_i b hb
    obtain h | h := List.mem_append.mp h
    · exact .inl (List.mem_filter.mp h).1
    · obtain rfl := List.mem_singleton.mp h
      exact .inr ⟨rfl, hb⟩
  · exact .inl h

theorem mem_foldl_replace (h : e ∈ (ps.foldl (Index.replace T) x).entries) :
    e ∈ x.entries ∨ (e.path ∈ ps ∧ Fresh T e) := by
  induction ps generalizing x with
  | nil => exact .inl h
  | cons p ps ih =>
    obtain h | ⟨hp, hfresh⟩ := ih h
    · exact (mem_replace h).imp_right fun ⟨hp, hfresh⟩ => ⟨hp ▸ List.mem_cons_self, hfresh⟩
    · exact .inr ⟨List.mem_cons_of_mem p hp, hfresh⟩

/-- A path that `add` of the pathspec brings in: the pathspec, or a readable file below the folder it names. -/
def Brings (T : Worktree) (unreadable : List Path) (p q : Path) : Prop :=
  if T.isDir p then q ∈ T.below p ∧ q ∉ unreadable else q = p

variable {unreadable : List Path}

theorem mem_addOne (h : e ∈ (x.addOne T unreadable p).entries) :
    e ∈ x.entries ∨ (Brings T unreadable p e.path ∧ Fresh T e) := by
  unfold Index.addOne at h
  unfold Brings
  split_ifs at h ⊢ with hdir hnone hunread
  · obtain h | ⟨hp, hfresh⟩ := mem_foldl_replace h
    · exact .inl (List.mem_filter.mp h).1
    · obtain ⟨hbelow, hread⟩ := List.mem_filter.mp hp
      exact .inr ⟨⟨hbelow, of_decide_eq_true hread⟩, hfresh⟩
  · exact .inl (List.mem_filter.mp h).1
  · exact .inl h
  · exact mem_replace h

theorem mem_add (h : e ∈ (x.add T unreadable ps).entries) :
    e ∈ x.entries ∨ ((∃ p ∈ ps, Brings T unreadable p e.path) ∧ Fresh T e) := by
  induction ps generalizing x with
  | nil => exact .inl h
  | cons p ps ih =>
    obtain h | ⟨⟨q, hq, hbrings⟩, hfresh⟩ := ih h
    · exact (mem_addOne h).imp_right fun ⟨hbrings, hfresh⟩ => ⟨⟨p, List.mem_cons_self, hbrings⟩, hfresh⟩
    · exact .inr ⟨⟨q, List.mem_cons_of_mem p hq, hbrings⟩, hfresh⟩

/-! ### What a written tree holds -/

theorem folders_update (ps : List Path) : (x.update T ps).folders = x.folders := by
  unfold Index.update
  induction ps generalizing x with
  | nil => rfl
  | cons p ps ih =>
    rw [List.foldl_cons, ih]
    unfold Index.updateOne
    split <;> rfl

theorem folders_foldl_replace (ps : List Path) : (ps.foldl (Index.replace T) x).folders = x.folders := by
  induction ps generalizing x with
  | nil => rfl
  | cons p ps ih =>
    rw [List.foldl_cons, ih]
    unfold Index.replace
    split <;> rfl

theorem folders_add (unreadable ps : List Path) : (x.add T unreadable ps).folders = x.folders := by
  unfold Index.add
  induction ps generalizing x with
  | nil => rfl
  | cons p ps ih =>
    rw [List.foldl_cons, ih]
    unfold Index.addOne
    split_ifs
    · exact folders_foldl_replace _
    · rfl
    · rfl
    · unfold Index.replace
      split <;> rfl

variable {t : Tree}

theorem mem_paths_entries (h : p ∈ (entries.foldl (fun t e => t.insert Index.nameLt e.path (.blob e.blob)) t).paths) :
    p ∈ t.paths ∨ ∃ e ∈ entries, p <+: e.path := by
  induction entries generalizing t with
  | nil => exact .inl h
  | cons e entries ih =>
    obtain h | ⟨f, hf, hp⟩ := ih h
    · obtain h | h | ⟨sub, hsub, -⟩ := TreeObject.mem_paths_insert h
      · exact .inl h
      · exact .inr ⟨e, List.mem_cons_self, h⟩
      · cases hsub
    · exact .inr ⟨f, List.mem_cons_of_mem e hf, hp⟩

variable {b : Path × Blob}

theorem mem_blobs_entries (h : b ∈ (entries.foldl (fun t e => t.insert Index.nameLt e.path (.blob e.blob)) t).blobs) :
    b ∈ t.blobs ∨ ∃ e ∈ entries, (e.path, e.blob) = b := by
  induction entries generalizing t with
  | nil => exact .inl h
  | cons e entries ih =>
    obtain h | ⟨f, hf, hb⟩ := ih h
    · obtain h | ⟨info, hinfo, rfl⟩ | ⟨sub, hsub, -⟩ := TreeObject.mem_blobs_insert h
      · exact .inl h
      · cases hinfo
        exact .inr ⟨e, List.mem_cons_self, rfl⟩
      · cases hsub
    · exact .inr ⟨f, List.mem_cons_of_mem e hf, hb⟩

theorem mem_blobs_folders {folders : List (Path × Tree)}
    (h : b ∈ (folders.foldl (fun t f => t.insert Index.nameLt f.1 (.tree f.2)) t).blobs) :
    b ∈ t.blobs ∨ ∃ f ∈ folders, f.1 <+: b.1 := by
  induction folders generalizing t with
  | nil => exact .inl h
  | cons f folders ih =>
    obtain h | ⟨g, hg, hb⟩ := ih h
    · obtain h | ⟨info, hinfo, -⟩ | ⟨sub, -, c, -, rfl⟩ := TreeObject.mem_blobs_insert h
      · exact .inl h
      · cases hinfo
      · exact .inr ⟨f, List.mem_cons_self, List.prefix_append _ _⟩
    · exact .inr ⟨g, List.mem_cons_of_mem f hg, hb⟩

/-- Without sparse folders, a path of a written tree leads to a path of the index. -/
theorem mem_paths_writeTree (h : x.writeTree = some t) (hfull : x.folders = []) (hp : p ∈ t.paths) :
    ∃ e ∈ x.entries, p <+: e.path := by
  unfold Index.writeTree at h
  split_ifs at h
  cases h
  rw [hfull] at hp
  exact (mem_paths_entries hp).resolve_left (by simp)

/-- A leaf of a written tree is an entry of the index, or lies in a sparse folder. -/
theorem mem_blobs_writeTree (h : x.writeTree = some t) (hb : b ∈ t.blobs) :
    (∃ e ∈ x.entries, (e.path, e.blob) = b) ∨ ∃ f ∈ x.folders, f.1 <+: b.1 := by
  unfold Index.writeTree at h
  split_ifs at h
  cases h
  exact (mem_blobs_folders hb).imp_left fun hb => (mem_blobs_entries hb).resolve_left (by simp)

end Sightr.Checkpoints
