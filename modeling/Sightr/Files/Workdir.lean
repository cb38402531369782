import Sightr.Files.Names
import Sightr.Lib.FileTree

/-!
# The Files tab

`bridge/workdir.ts` with `bridge/containment.ts`: the routes that list, open, download, save, delete, search and
resolve files below the work root. A request's path is parsed as text, and the file system resolves it; the work
directory is a file tree with links, as it stands during one request. Lower casing, the order of names and the types
a browser opens are the engine's and the map's.
-/

namespace Sightr.Files

open JsText FileTree

def MAX_ENTRIES : Nat := 2000
def PREVIEW_CAP_BYTES : Nat := 512 * 1024
def DOWNLOAD_CAP_BYTES : Nat := 100 * 1024 * 1024
def SEARCH_MAX_DEPTH : Nat := 8
def SEARCH_MAX_RESULTS : Nat := 200
def SEARCH_MAX_DIRS : Nat := 5000
def RESOLVE_MAX_CHARS : Nat := 4096

abbrev FilePath := List Name

structure FileInfo where
  size : Nat
  mtimeMs : Int
  binary : Bool
  deriving DecidableEq

abbrev FileKindOf := FileKind Name FileInfo

def IsFileName (name : Name) : Prop := name ≠ [] ∧ '/' ∉ name

structure WorkDir where
  tree : FileTree Name FileInfo
  names : ∀ n ∈ tree.nodes.rows, ∀ name ∈ n.path, IsFileName name
  workRoot : FilePath
  /-- How many links the system follows in one path. -/
  maxLinks : Nat
  toLowerCase : List Char → List Char
  /-- Does the first name come before the second, or with it? -/
  localeCompare : Name → Name → Bool
  browserOpens : Name → Bool

namespace WorkDir

variable (w : WorkDir)

def realpath (p : FilePath) : Option FilePath := w.tree.realpath w.maxLinks p

def lstat (p : FilePath) : Option FileKindOf := w.tree.lstat w.maxLinks p

def stat (p : FilePath) : Option FileKindOf := (w.realpath p).bind w.tree.kind?

def realRoot : Option FilePath := w.realpath w.workRoot

/-- The candidate's real path, if it is the real root or below it. -/
def containedRealpath (candidate : FilePath) : Option FilePath := do
  let real ← w.realpath candidate
  let realRoot ← w.realRoot
  -- Below the top of the file system nothing passes: its path already ends in a separator.
  if real = realRoot || (!realRoot.isEmpty && realRoot.isPrefixOf real) then some real else none

variable (segs : List Name)

def resolveInRoot : Option FilePath := w.containedRealpath (w.workRoot ++ segs)

def joinPath : PathText := List.intercalate ['/'] segs

/-- The path from the real root, or `none` when it is outside the root or refused. -/
def relInRoot (abs : FilePath) : Option PathText := do
  let real ← w.containedRealpath abs
  let realRoot ← w.realRoot
  let rel := joinPath (real.drop realRoot.length)
  let _ ← parseRelPath rel
  return rel

/-! ### Resolving a printed path -/

inductive ResolveReason
  | badPath
  | noFolder
  | outsideRoot
  | hidden
  | notFound
  deriving DecidableEq

/-- A path from a drive's own folder, as Windows writes it. -/
def isDriveRelative : PathText → Bool
  | c :: ':' :: rest => c.isAlpha && !(startsWith ['\\'] rest || startsWith ['/'] rest)
  | _ => false

/-- `resolve` of a folder and a text: the dots and the empty segments are worked out on the text alone. -/
def resolveText (base : FilePath) (text : PathText) : FilePath :=
  (text.splitOn '/').foldl (fun path seg =>
    if seg = [] ∨ seg = ['.'] then path else if seg = ['.', '.'] then path.dropLast else path ++ [seg]) base

/-- A path as an agent printed it, as a path from the root, and whether it is a folder. -/
def resolveFilePath (raw : PathText) (cwd : Option FilePath) : Except ResolveReason (PathText × Bool) :=
  let p := trim raw
  if p.isEmpty || (codeUnits p).length > RESOLVE_MAX_CHARS || p.any (·.toNat ≤ 0x1F) || isDriveRelative p then
    .error .badPath
  else match if startsWith ['/'] p then some [] else cwd with
    | none => .error .noFolder
    | some base =>
      let abs := resolveText base p
      match (w.workRoot :: w.realRoot.toList).find? (·.isPrefixOf abs) with
      | none => .error .outsideRoot
      | some via =>
        if (abs.drop via.length).any isRefusedName then .error .hidden
        else match w.relInRoot abs with
          | none => .error .notFound
          | some rel =>
            match (w.resolveInRoot (if rel.isEmpty then [] else rel.splitOn '/')).bind w.stat with
            | some .dir => .ok (rel, true)
            | some (.file _) => .ok (rel, false)
            | _ => .error .notFound

/-! ### Listing and opening -/

structure FileEntry where
  name : Name
  file : Option FileInfo
  repo : Bool
  deriving DecidableEq

inductive Inspected
  | dir (real : FilePath) (entries : List FileEntry) (truncated : Bool)
  | file (real : FilePath) (info : FileInfo)
  deriving DecidableEq

def nameOf (n : FileNode Name FileInfo) : Name := n.path.getLast?.getD []

def isLink (n : FileNode Name FileInfo) : Bool :=
  match n.kind with
  | .link _ => true
  | _ => false

def isDir (n : FileNode Name FileInfo) : Bool :=
  match n.kind with
  | .dir => true
  | _ => false

def entryOrder (a b : FileNode Name FileInfo) : Bool :=
  if isDir a = isDir b then w.localeCompare (nameOf a) (nameOf b) else isDir a

def inspect : Option Inspected := do
  let real ← w.resolveInRoot segs
  match ← w.stat real with
  | .dir =>
    let eligible := (w.tree.readdir real).filter fun n => !isRefusedName (nameOf n) && !isLink n
    let shown := (eligible.mergeSort w.entryOrder).take MAX_ENTRIES
    let entries := shown.filterMap fun n =>
      match w.stat (real ++ [nameOf n]) with
      | none => none
      | some kind => some {
          name := nameOf n
          file := match kind with
            | .file info => some info
            | _ => none
          repo := isDir n && (w.stat (real ++ [nameOf n, ".git".toList])).isSome }
    some (.dir real entries (MAX_ENTRIES < eligible.length))
  | .file info => some (.file real info)
  | .link _ => none

inductive OpenFailure
  | notFound
  | tooLarge
  deriving DecidableEq

def openFile : Except OpenFailure FilePath :=
  if segs.isEmpty then .error .notFound
  else match w.resolveInRoot segs with
    | none => .error .notFound
    | some real => match w.stat real with
      | some (.file info) =>
        if DOWNLOAD_CAP_BYTES < info.size then .error .tooLarge
        else if w.browserOpens (real.getLast?.getD []) then .ok real else .error .notFound
      | _ => .error .notFound

/-! ### Saving and deleting -/

/-- The file a request names, if it is an ordinary text file that is no link itself. -/
def resolveEditableFile : Option (FilePath × FileInfo) :=
  let namedPath := w.workRoot ++ segs
  match w.lstat namedPath with
  | some (.file info) =>
    if (w.containedRealpath namedPath).isSome && !info.binary then some (namedPath, info) else none
  | _ => none

inductive EditFailure
  | notFound
  | tooLarge
  | changed
  deriving DecidableEq

def saveEditableFile (textBytes : Nat) (mtimeMs : Int) : Except EditFailure FilePath :=
  match w.resolveEditableFile segs with
  | none => .error .notFound
  | some (namedPath, info) =>
    if PREVIEW_CAP_BYTES < info.size || PREVIEW_CAP_BYTES < textBytes then .error .tooLarge
    else if info.mtimeMs ≠ mtimeMs then .error .changed
    else .ok namedPath

def deleteFile : Except EditFailure FilePath :=
  match w.resolveEditableFile segs with
  | none => .error .notFound
  | some (namedPath, _) => .ok namedPath

/-! ### Searching -/

structure SearchState where
  /-- The paths found, from the root, and whether each is a folder. -/
  results : List (List Name × Bool) := []
  dirs : Nat := 0
  truncated : Bool := false

def matchesQuery (q : List Char) (name : Name) : Bool := (cut (w.toLowerCase q) (w.toLowerCase name)).isSome

/-- The entries of one folder, with the folders to visit next. -/
def searchEntries (q : List Char) (deep : Bool) (path : List Name) :
    List (FileNode Name FileInfo) → SearchState → List (List Name) → SearchState × List (List Name)
  | [], st, next => (st, next)
  | n :: rest, st, next =>
    if isRefusedName (nameOf n) || isLink n then searchEntries q deep path rest st next
    else
      let found := w.matchesQuery q (nameOf n)
      let st := if found then { st with results := st.results ++ [(path ++ [nameOf n], isDir n)] } else st
      if found && SEARCH_MAX_RESULTS ≤ st.results.length then ({ st with truncated := true }, next)
      else searchEntries q deep path rest st (if isDir n && deep then next ++ [path ++ [nameOf n]] else next)

/-- The folders of one depth; `late` says when the time is up. -/
def searchLevel (q : List Char) (late : Nat → Bool) (deep : Bool) :
    List (List Name) → SearchState → List (List Name) → SearchState × List (List Name)
  | [], st, next => (st, next)
  | path :: rest, st, next =>
    if st.truncated then (st, next)
    else
      let st := { st with dirs := st.dirs + 1 }
      if SEARCH_MAX_DIRS < st.dirs || late st.dirs then ({ st with truncated := true }, next)
      else match w.resolveInRoot path with
        | none => searchLevel q late deep rest st next
        | some real =>
          let after := w.searchEntries q deep path (w.tree.readdir real) st next
          searchLevel q late deep rest after.1 after.2

def searchFrom (q : List Char) (late : Nat → Bool) : Nat → List (List Name) → SearchState → SearchState
  | 0, queue, st => (w.searchLevel q late false queue st []).1
  | depth + 1, queue, st =>
    let after := w.searchLevel q late true queue st []
    searchFrom q late depth after.2 after.1

/-- The breadth-first search below the root, depth by depth. -/
def search (q : List Char) (late : Nat → Bool) : SearchState := w.searchFrom q late SEARCH_MAX_DEPTH [[]] {}

/-! ### Containment -/

variable {w} {p q real : FilePath}

section

variable (h : w.containedRealpath p = some real)
include h

theorem realpath_of_contained : w.realpath p = some real := by
  obtain ⟨found, hfound, h⟩ := Option.bind_eq_some_iff.mp h
  obtain ⟨realRoot, -, h⟩ := Option.bind_eq_some_iff.mp h
  split_ifs at h
  cases h
  exact hfound

theorem exists_rel_of_contained : ∃ realRoot rel, w.realRoot = some realRoot ∧ real = realRoot ++ rel := by
  obtain ⟨found, -, h⟩ := Option.bind_eq_some_iff.mp h
  obtain ⟨realRoot, hroot, h⟩ := Option.bind_eq_some_iff.mp h
  split_ifs at h with hinside
  cases h
  rcases Bool.or_eq_true_iff.mp hinside with heq | hbelow
  · exact ⟨realRoot, [], hroot, by simpa using heq⟩
  · obtain ⟨rel, rfl⟩ := List.isPrefixOf_iff_prefix.mp (Bool.and_eq_true_iff.mp hbelow).2
    exact ⟨realRoot, rel, hroot, rfl⟩

theorem isReal_of_contained : w.tree.IsReal real :=
  w.tree.isReal_realpath (realpath_of_contained h)

end

section

variable (h : w.tree.IsReal p)
include h

theorem realpath_of_isReal : w.realpath p = some p := w.tree.realpath_of_isReal w.maxLinks h

theorem stat_of_isReal : w.stat p = w.tree.kind? p := by
  rw [stat, realpath_of_isReal h]
  rfl

theorem isFileName_of_isReal : ∀ name ∈ p, IsFileName name := by
  intro name hname
  obtain ⟨kind, hkind⟩ := w.tree.exists_kind_of_isReal h
  have hp : p ≠ [] := List.ne_nil_of_mem hname
  rw [kind?, if_neg hp] at hkind
  obtain ⟨n, hn, -⟩ := Option.map_eq_some_iff.mp hkind
  rw [← Keyed.Table.key_of_find? hn] at hname
  exact w.names n (Keyed.Table.mem_of_find? hn) name hname

end

theorem splitOn_joinPath {segs : List Name} (hne : segs ≠ []) (h : ∀ name ∈ segs, IsFileName name) :
    (joinPath segs).splitOn '/' = segs :=
  List.splitOn_intercalate '/' (fun name hname => (h name hname).2) hne

theorem joinPath_eq_nil {segs : List Name} (h : ∀ name ∈ segs, IsFileName name) (hnil : joinPath segs = []) :
    segs = [] := by
  by_contra hne
  have hsplit := splitOn_joinPath hne h
  rw [hnil] at hsplit
  exact (h [] (by rw [← hsplit]; simp)).1 rfl

/-- A path from the root that `relInRoot` answers names a real path below the root, without a refused name. -/
theorem relInRoot_sound {abs : FilePath} {rel : PathText} (h : w.relInRoot abs = some rel) :
    ∃ realRoot segs, w.realRoot = some realRoot ∧ w.tree.IsReal (realRoot ++ segs) ∧
      (if rel.isEmpty then [] else rel.splitOn '/') = segs ∧ ∀ seg ∈ segs, isRefusedName seg = false := by
  obtain ⟨real, hreal, h⟩ := Option.bind_eq_some_iff.mp h
  obtain ⟨realRoot, hroot, h⟩ := Option.bind_eq_some_iff.mp h
  obtain ⟨parts, hparts, h⟩ := Option.bind_eq_some_iff.mp h
  cases h
  obtain ⟨_, segs, hroot', rfl⟩ := exists_rel_of_contained hreal
  obtain rfl := Option.some.inj (hroot'.symm.trans hroot)
  rw [List.drop_left] at hparts ⊢
  have hisReal := isReal_of_contained hreal
  have hnames : ∀ name ∈ segs, IsFileName name := fun name hname =>
    isFileName_of_isReal hisReal name (List.mem_append_right _ hname)
  have hsegs : (if (joinPath segs).isEmpty then [] else (joinPath segs).splitOn '/') = segs := by
    split_ifs with hempty
    · exact (joinPath_eq_nil hnames (List.isEmpty_iff.mp hempty)).symm
    · refine splitOn_joinPath (fun hnil => hempty ?_) hnames
      rw [hnil]
      rfl
  refine ⟨_, segs, hroot, hisReal, hsegs, fun seg hseg => ?_⟩
  obtain ⟨hnil, -⟩ | ⟨hsplit, -⟩ := parseRelPath_cases hparts
  · rw [joinPath_eq_nil hnames hnil] at hseg
    cases hseg
  · have hne : segs ≠ [] := List.ne_nil_of_mem hseg
    rw [splitOn_joinPath hne hnames] at hsplit
    exact (parseRelPath_sound hparts seg (hsplit ▸ hseg)).2

end WorkDir

end Sightr.Files
