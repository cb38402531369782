import Sightr.Files.Zip

/-!
# What the Files tab serves

The routes of `bridge/workdir.ts` refuse names in the text of a request and check the real path only against the
root. A link with an ordinary name may lead to a hidden place inside the root, and what is there is then served.
-/

namespace Sightr.Files

open JsText FileTree

namespace WorkDir

variable (w : WorkDir)

/-! ### The routes -/

inductive Download
  | file (real : FilePath)
  | zip (plan : ZipPlan)

inductive DownloadFailure
  | notFound
  | tooMany
  | tooLarge
  deriving DecidableEq

def filesCaps : ZipCaps where
  maxEntries := MAX_ENTRIES
  capBytes := DOWNLOAD_CAP_BYTES

def download (segs : List Name) (now : Int) : Except DownloadFailure Download :=
  if segs.isEmpty then .error .notFound
  else match w.resolveInRoot segs with
    | none => .error .notFound
    | some real => match w.stat real with
      | some .dir => match w.planZip filesCaps real SEARCH_MAX_DEPTH (real.getLast?.getD []) now with
        | .error .tooMany => .error .tooMany
        | .error .tooLarge => .error .tooLarge
        | .ok plan => .ok (.zip plan)
      | some (.file info) => if DOWNLOAD_CAP_BYTES < info.size then .error .tooLarge else .ok (.file real)
      | _ => .error .notFound

inductive FilesRequest
  | list (path : PathText)
  | openFile (path : PathText)
  | download (path : PathText) (now : Int)
  | save (path : PathText) (textBytes : Nat) (mtimeMs : Int)
  | delete (path : PathText)
  | search (q : List Char) (late : Nat → Bool)
  | resolve (path : PathText) (cwd : Option FilePath)

def inspected (segs : List Name) : List FilePath :=
  match w.inspect segs with
  | none => []
  | some (.dir real entries _) => real :: entries.map fun e => real ++ [e.name]
  | some (.file real _) => [real]

/-- The paths that a request's answer reads, writes or names; a refused request has none. -/
def touched : FilesRequest → List FilePath
  | .list path => (parseRelPath path).elim [] w.inspected
  | .openFile path => (parseRelPath path).elim [] fun segs => (w.openFile segs).toOption.toList
  | .download path now => (parseRelPath path).elim [] fun segs =>
    match w.download segs now with
    | .ok (.file real) => [real]
    | .ok (.zip plan) => plan.files.filterMap (·.real)
    | .error _ => []
  | .save path textBytes mtimeMs => (parseRelPath path).elim [] fun segs =>
    (w.saveEditableFile segs textBytes mtimeMs).toOption.toList
  | .delete path => (parseRelPath path).elim [] fun segs => (w.deleteFile segs).toOption.toList
  | .search q late =>
    let q := trim q
    if (codeUnits q).length < 2 then [] else (w.search q late).results.map fun found => w.workRoot ++ found.1
  | .resolve path cwd =>
    match w.resolveFilePath path cwd with
    | .ok (rel, _) => [w.workRoot ++ if rel.isEmpty then [] else rel.splitOn '/']
    | .error _ => []

/-! ### What may be shown -/

/-- The path's real path is inside the real root, and no segment below the root is a refused name. -/
def Shown (p : FilePath) : Prop :=
  ∃ realRoot rel, w.realRoot = some realRoot ∧ w.realpath p = some (realRoot ++ rel) ∧
    ∀ seg ∈ rel, isRefusedName seg = false

/-- Every route's answer touches only what may be shown. -/
def Safe : Prop := ∀ request, ∀ p ∈ w.touched request, w.Shown p

/-- Nothing that a request's path leads to inside the root is hidden. -/
def RequestsShown : Prop :=
  ∀ path segs real, parseRelPath path = some segs → w.resolveInRoot segs = some real → w.Shown real

/-- No file that the zip of a request's folder may hold is hidden. -/
def ZipsShown : Prop :=
  ∀ path segs real file, parseRelPath path = some segs → segs ≠ [] → w.resolveInRoot segs = some real →
    w.Packable real SEARCH_MAX_DEPTH file → w.Shown file

/-- The zip of each folder a request may name holds all it may hold: nothing is over a cap. -/
def ZipsFit : Prop :=
  (∀ d, (w.tree.readdir d).length ≤ MAX_ENTRIES) ∧
    ∀ path segs real, parseRelPath path = some segs → segs ≠ [] → w.resolveInRoot segs = some real →
      w.stat real = some .dir →
        ∃ packed, w.packChildren filesCaps real SEARCH_MAX_DEPTH (real.getLast?.getD []) = .ok (packed, [])

variable {w} {p real : FilePath}

theorem Shown.congr {q : FilePath} (h : w.Shown p) (hq : w.realpath q = w.realpath p) : w.Shown q := by
  obtain ⟨realRoot, rel, hroot, hp, hrel⟩ := h
  exact ⟨realRoot, rel, hroot, hq.trans hp, hrel⟩

theorem Shown.of_contained (h : w.Shown real) (hp : w.containedRealpath p = some real) : w.Shown p :=
  h.congr ((realpath_of_contained hp).trans (realpath_of_isReal (isReal_of_contained hp)).symm)

variable {n : FileNode Name FileInfo}

theorem Shown.child (h : w.Shown real) (hreal : w.tree.IsReal real) (hn : n ∈ w.tree.readdir real)
    (hlink : isLink n = false) (hname : isRefusedName (nameOf n) = false) :
    w.Shown (real ++ [nameOf n]) := by
  obtain ⟨realRoot, rel, hroot, hp, hrel⟩ := h
  obtain ⟨hkind, name, hpath⟩ := w.tree.kind?_of_mem_readdir hn
  have hnameOf : nameOf n = name := by simp [nameOf, hpath]
  have hchild : w.tree.IsReal (real ++ [nameOf n]) := by
    rw [hnameOf, ← hpath]
    unfold isLink at hlink
    cases hk : n.kind with
    | dir => exact w.tree.isReal_of_dir (hkind.trans (congrArg some hk))
    | file info => exact w.tree.isReal_of_file (hkind.trans (congrArg some hk))
    | link target => simp [hk] at hlink
  rw [realpath_of_isReal hreal] at hp
  cases hp
  refine ⟨realRoot, rel ++ [nameOf n], hroot, ?_, fun seg hseg => ?_⟩
  · rw [realpath_of_isReal hchild, List.append_assoc]
  · rcases List.mem_append.mp hseg with hseg | hseg
    · exact hrel seg hseg
    · rw [List.mem_singleton.mp hseg]
      exact hname

variable {segs : List Name}

theorem Shown.of_real {realRoot : List Name} (hroot : w.realRoot = some realRoot)
    (hreal : w.tree.IsReal (realRoot ++ segs)) (hsegs : ∀ seg ∈ segs, isRefusedName seg = false) :
    w.Shown (w.workRoot ++ segs) :=
  ⟨realRoot, segs, hroot, w.tree.realpath_append hroot hreal, hsegs⟩

/-! ### Requests that name a path -/

theorem shown_of_mem_inspected (h : ∀ real, w.resolveInRoot segs = some real → w.Shown real)
    (hp : p ∈ w.inspected segs) : w.Shown p := by
  unfold inspected inspect at hp
  cases hreal : w.resolveInRoot segs with
  | none => simp [hreal] at hp
  | some real =>
    have hshown := h real hreal
    have hisReal := isReal_of_contained hreal
    simp only [hreal, stat_of_isReal hisReal, Option.bind_eq_bind, Option.bind_some] at hp
    cases hkind : w.tree.kind? real with
    | none => simp [hkind] at hp
    | some kind =>
      cases kind with
      | dir =>
        simp only [hkind, Option.bind_some, List.mem_cons, List.mem_map, List.mem_filterMap] at hp
        obtain rfl | ⟨e, ⟨n, hn, he⟩, rfl⟩ := hp
        · exact hshown
        · have hname : e.name = nameOf n := by
            split at he
            · cases he
            · rw [← Option.some.inj he]
          obtain ⟨hmem, heligible⟩ := List.mem_filter.mp (List.mem_mergeSort.mp (List.mem_of_mem_take hn))
          simp only [Bool.and_eq_true, Bool.not_eq_true'] at heligible
          rw [hname]
          exact hshown.child hisReal hmem heligible.2 heligible.1
      | file info =>
        simp only [hkind, Option.bind_some, List.mem_singleton] at hp
        rw [hp]
        exact hshown
      | link target => simp [hkind] at hp

theorem eq_of_openFile (h : w.openFile segs = .ok real) : w.resolveInRoot segs = some real := by
  unfold openFile at h
  split_ifs at h
  split at h
  · cases h
  · rename_i found hfound
    split at h
    · split_ifs at h
      obtain rfl := Except.ok.inj h
      exact hfound
    · cases h

theorem contained_of_resolveEditableFile {info : FileInfo} (h : w.resolveEditableFile segs = some (p, info)) :
    ∃ real, w.resolveInRoot segs = some real ∧ w.containedRealpath p = some real := by
  unfold resolveEditableFile at h
  dsimp only at h
  split at h
  · split_ifs at h with hcontained
    obtain ⟨rfl, -⟩ := Prod.mk.inj (Option.some.inj h)
    obtain ⟨real, hreal⟩ := Option.isSome_iff_exists.mp (Bool.and_eq_true_iff.mp hcontained).1
    exact ⟨real, hreal, hreal⟩
  · cases h

theorem editable_of_saveEditableFile {textBytes : Nat} {mtimeMs : Int}
    (h : w.saveEditableFile segs textBytes mtimeMs = .ok p) :
    ∃ info, w.resolveEditableFile segs = some (p, info) := by
  unfold saveEditableFile at h
  split at h
  · cases h
  · rename_i namedPath info hfound
    split_ifs at h
    obtain rfl := Except.ok.inj h
    exact ⟨info, hfound⟩

theorem editable_of_deleteFile (h : w.deleteFile segs = .ok p) :
    ∃ info, w.resolveEditableFile segs = some (p, info) := by
  unfold deleteFile at h
  split at h
  · cases h
  · rename_i namedPath info hfound
    obtain rfl := Except.ok.inj h
    exact ⟨info, hfound⟩

theorem download_cases {now : Int} {got : Download} (h : w.download segs now = .ok got) :
    segs ≠ [] ∧ ∃ real, w.resolveInRoot segs = some real ∧ (got = .file real ∨ ∃ plan, got = .zip plan ∧
      w.planZip filesCaps real SEARCH_MAX_DEPTH (real.getLast?.getD []) now = .ok plan) := by
  unfold download at h
  split_ifs at h with hempty
  split at h
  · cases h
  · rename_i real hreal
    refine ⟨by simpa using hempty, real, hreal, ?_⟩
    split at h
    · split at h
      · cases h
      · cases h
      · rename_i plan hplan
        exact .inr ⟨plan, (Except.ok.inj h).symm, hplan⟩
    · split_ifs at h
      exact .inl (Except.ok.inj h).symm
    · cases h

/-! ### Searching and resolving, over any tree -/

/-- A path from the work root with ordinary names only and no link in it. -/
private def Plain (w : WorkDir) (path : List Name) : Prop :=
  ∃ realRoot, w.realRoot = some realRoot ∧ w.tree.IsReal (realRoot ++ path) ∧ ∀ seg ∈ path, isRefusedName seg = false

private theorem Plain.shown {path : List Name} : w.Plain path → w.Shown (w.workRoot ++ path) :=
  fun ⟨_, hroot, hreal, hpath⟩ => Shown.of_real hroot hreal hpath

variable {path : List Name}

private theorem Plain.resolveInRoot (h : w.Plain path) (hreal : w.resolveInRoot path = some real) :
    ∃ realRoot, w.realRoot = some realRoot ∧ real = realRoot ++ path := by
  obtain ⟨realRoot, hroot, hisReal, -⟩ := h
  have hresolved := w.tree.realpath_append hroot hisReal
  exact ⟨realRoot, hroot, Option.some.inj ((realpath_of_contained hreal).symm.trans hresolved)⟩

private theorem Plain.child (h : w.Plain path) (hreal : w.resolveInRoot path = some real)
    (hn : n ∈ w.tree.readdir real) (hordinary : ¬(isRefusedName (nameOf n) || isLink n)) :
    w.Plain (path ++ [nameOf n]) := by
  obtain ⟨realRoot, hroot, rfl⟩ := h.resolveInRoot hreal
  obtain ⟨-, -, -, hpath⟩ := h
  simp only [Bool.or_eq_true, not_or, Bool.not_eq_true] at hordinary
  obtain ⟨hkind, name, hnode⟩ := w.tree.kind?_of_mem_readdir hn
  have hname : nameOf n = name := by simp [nameOf, hnode]
  refine ⟨realRoot, hroot, ?_, fun seg hseg => ?_⟩
  · rw [← List.append_assoc, hname, ← hnode]
    have hlink := hordinary.2
    unfold isLink at hlink
    cases hk : n.kind with
    | dir => exact w.tree.isReal_of_dir (hkind.trans (congrArg some hk))
    | file info => exact w.tree.isReal_of_file (hkind.trans (congrArg some hk))
    | link target => simp [hk] at hlink
  · rcases List.mem_append.mp hseg with hseg | hseg
    · exact hpath seg hseg
    · rw [List.mem_singleton.mp hseg]
      exact hordinary.1

/-- Everything found, and every folder to visit, is plain. -/
private structure Found (w : WorkDir) (st : SearchState) (next : List (List Name)) : Prop where
  results : ∀ found ∈ st.results, w.Plain found.1
  next : ∀ path ∈ next, w.Plain path

variable {q : List Char} {deep : Bool} {st : SearchState} {next : List (List Name)}

private theorem Found.searchEntries {entries : List (FileNode Name FileInfo)} (h : w.Found st next)
    (hentries : ∀ n ∈ entries, ¬(isRefusedName (nameOf n) || isLink n) → w.Plain (path ++ [nameOf n])) :
    w.Found (w.searchEntries q deep path entries st next).1 (w.searchEntries q deep path entries st next).2 := by
  have hfound : ∀ (st : SearchState) (n : FileNode Name FileInfo), w.Plain (path ++ [nameOf n]) →
      (∀ found ∈ st.results, w.Plain found.1) →
      ∀ found ∈ (if w.matchesQuery q (nameOf n) then
        { st with results := st.results ++ [(path ++ [nameOf n], isDir n)] } else st).results, w.Plain found.1 := by
    intro st n hplain h
    split_ifs
    · intro found hfound
      rcases List.mem_append.mp hfound with hfound | hfound
      · exact h found hfound
      · rw [List.mem_singleton.mp hfound]
        exact hplain
    · exact h
  fun_induction WorkDir.searchEntries w q deep path entries st next with
  | case1 => exact h
  | case2 n rest st next hskip ih => exact ih h fun m hm => hentries m (List.mem_cons_of_mem n hm)
  | case3 n rest st₀ next hskip found st hfull =>
    exact ⟨hfound st₀ n (hentries n List.mem_cons_self hskip) h.results, h.next⟩
  | case4 n rest st₀ next hskip found st hroom ih =>
    have hplain := hentries n List.mem_cons_self hskip
    refine ih ⟨hfound st₀ n hplain h.results, ?_⟩ fun m hm => hentries m (List.mem_cons_of_mem n hm)
    split_ifs
    · intro later hlater
      rcases List.mem_append.mp hlater with hlater | hlater
      · exact h.next later hlater
      · rw [List.mem_singleton.mp hlater]
        exact hplain
    · exact h.next

variable {late : Nat → Bool} {queue : List (List Name)}

private theorem Found.searchLevel (h : w.Found st next) (hqueue : ∀ path ∈ queue, w.Plain path) :
    w.Found (w.searchLevel q late deep queue st next).1 (w.searchLevel q late deep queue st next).2 := by
  fun_induction WorkDir.searchLevel w q late deep queue st next with
  | case1 => exact h
  | case2 => exact h
  | case3 => exact ⟨h.results, h.next⟩
  | case4 path rest st₀ next hopen st hroom hnone ih =>
    exact ih ⟨h.results, h.next⟩ fun later hlater => hqueue later (List.mem_cons_of_mem path hlater)
  | case5 path rest st₀ next hopen st hroom real hreal after ih =>
    have hpath := hqueue path List.mem_cons_self
    exact ih (Found.searchEntries ⟨h.results, h.next⟩ fun n hn => hpath.child hreal hn)
      fun later hlater => hqueue later (List.mem_cons_of_mem path hlater)

private theorem Found.searchFrom {depth : Nat} (h : w.Found st queue) :
    ∀ found ∈ (w.searchFrom q late depth queue st).results, w.Plain found.1 := by
  induction depth generalizing queue st with
  | zero => exact (Found.searchLevel ⟨h.results, by simp⟩ h.next).results
  | succ depth ih => exact ih (Found.searchLevel ⟨h.results, by simp⟩ h.next)

theorem shown_of_search {found : List Name × Bool} (h : found ∈ (w.search q late).results) :
    w.Shown (w.workRoot ++ found.1) := by
  cases hroot : w.realRoot with
  | none =>
    -- Without a real root the search visits no folder.
    have hnone : w.resolveInRoot [] = none := by
      unfold WorkDir.resolveInRoot containedRealpath
      rw [List.append_nil, hroot]
      cases w.realpath w.workRoot <;> rfl
    simp only [search, SEARCH_MAX_DEPTH, searchFrom, searchLevel, hnone] at h
    split_ifs at h <;> simp [searchLevel] at h
  | some realRoot =>
    refine Plain.shown (Found.searchFrom ⟨by simp, fun path hpath => ?_⟩ found h)
    rw [List.mem_singleton.mp hpath]
    refine ⟨realRoot, hroot, ?_, by simp⟩
    rw [List.append_nil]
    exact w.tree.isReal_realpath hroot

theorem shown_of_resolveFilePath {path rel : PathText} {cwd : Option FilePath} {dir : Bool}
    (h : w.resolveFilePath path cwd = .ok (rel, dir)) :
    w.Shown (w.workRoot ++ if rel.isEmpty then [] else rel.splitOn '/') := by
  have hrel : ∃ abs, w.relInRoot abs = some rel := by
    unfold resolveFilePath at h
    dsimp only at h
    generalize (if startsWith ['/'] (trim path) then some [] else cwd) = base at h
    split_ifs at h
    split at h
    · cases h
    · split at h
      · cases h
      · split_ifs at h
        split at h
        · cases h
        · rename_i found hfound
          split at h
          · obtain ⟨rfl, -⟩ := Prod.mk.inj (Except.ok.inj h)
            exact ⟨_, hfound⟩
          · obtain ⟨rfl, -⟩ := Prod.mk.inj (Except.ok.inj h)
            exact ⟨_, hfound⟩
          · cases h
  obtain ⟨abs, habs⟩ := hrel
  obtain ⟨realRoot, segs, hroot, hreal, hsegs, hnames⟩ := relInRoot_sound habs
  rw [hsegs]
  exact Shown.of_real hroot hreal hnames

/-! ### All routes -/

theorem safe_of_shown (hrequests : w.RequestsShown) (hzips : w.ZipsShown) : w.Safe := by
  intro request p hp
  have hedit : ∀ {path segs info}, parseRelPath path = some segs → w.resolveEditableFile segs = some (p, info) →
      w.Shown p := by
    intro path segs info hsegs hfound
    obtain ⟨real, hreal, hcontained⟩ := contained_of_resolveEditableFile hfound
    exact (hrequests path segs real hsegs hreal).of_contained hcontained
  cases request with
  | list path =>
    cases hsegs : parseRelPath path with
    | none => simp [touched, hsegs] at hp
    | some segs =>
      rw [touched, hsegs] at hp
      exact shown_of_mem_inspected (fun real => hrequests path segs real hsegs) hp
  | openFile path =>
    cases hsegs : parseRelPath path with
    | none => simp [touched, hsegs] at hp
    | some segs =>
      rw [touched, hsegs] at hp
      cases hopen : w.openFile segs with
      | error failure => simp [hopen, Except.toOption] at hp
      | ok real =>
        obtain rfl : p = real := by simpa [hopen, Except.toOption] using hp
        exact hrequests path segs p hsegs (eq_of_openFile hopen)
  | download path now =>
    cases hsegs : parseRelPath path with
    | none => simp [touched, hsegs] at hp
    | some segs =>
      simp only [touched, hsegs, Option.elim_some] at hp
      cases hgot : w.download segs now with
      | error failure => simp [hgot] at hp
      | ok got =>
        rw [hgot] at hp
        obtain ⟨hne, real, hreal, rfl | ⟨plan, rfl, hplan⟩⟩ := download_cases hgot
        · rw [List.mem_singleton.mp hp]
          exact hrequests path segs real hsegs hreal
        · obtain ⟨f, hf, hfile⟩ := List.mem_filterMap.mp hp
          obtain hnone | ⟨file, hsome, hpackable⟩ := packable_of_mem_planZip hplan hf
          · rw [hnone] at hfile
            cases hfile
          · obtain rfl := Option.some.inj (hsome.symm.trans hfile)
            exact hzips path segs real file hsegs hne hreal hpackable
  | save path textBytes mtimeMs =>
    cases hsegs : parseRelPath path with
    | none => simp [touched, hsegs] at hp
    | some segs =>
      rw [touched, hsegs] at hp
      cases hsave : w.saveEditableFile segs textBytes mtimeMs with
      | error failure => simp [hsave, Except.toOption] at hp
      | ok namedPath =>
        obtain rfl : p = namedPath := by simpa [hsave, Except.toOption] using hp
        obtain ⟨info, hfound⟩ := editable_of_saveEditableFile hsave
        exact hedit hsegs hfound
  | delete path =>
    cases hsegs : parseRelPath path with
    | none => simp [touched, hsegs] at hp
    | some segs =>
      rw [touched, hsegs] at hp
      cases hdelete : w.deleteFile segs with
      | error failure => simp [hdelete, Except.toOption] at hp
      | ok namedPath =>
        obtain rfl : p = namedPath := by simpa [hdelete, Except.toOption] using hp
        obtain ⟨info, hfound⟩ := editable_of_deleteFile hdelete
        exact hedit hsegs hfound
  | search q late =>
    simp only [touched] at hp
    split_ifs at hp
    · cases hp
    · obtain ⟨found, hfound, rfl⟩ := List.mem_map.mp hp
      exact shown_of_search hfound
  | resolve path cwd =>
    cases hresolved : w.resolveFilePath path cwd with
    | error reason => simp [touched, hresolved] at hp
    | ok answer =>
      simp only [touched, hresolved, List.mem_singleton] at hp
      rw [hp]
      exact shown_of_resolveFilePath hresolved

theorem mem_inspected (hreal : w.resolveInRoot segs = some real) : real ∈ w.inspected segs := by
  have hisReal := isReal_of_contained hreal
  unfold inspected inspect
  simp only [hreal, stat_of_isReal hisReal, Option.bind_eq_bind, Option.bind_some]
  obtain hdir | ⟨info, hfile⟩ := hisReal
  · simp [hdir]
  · simp [hfile]

theorem requestsShown_of_safe (h : w.Safe) : w.RequestsShown := by
  intro path segs real hsegs hreal
  refine h (.list path) real ?_
  rw [touched, hsegs]
  exact mem_inspected hreal

theorem zipsShown_of_safe (hfit : w.ZipsFit) (h : w.Safe) : w.ZipsShown := by
  intro path segs real file hsegs hne hreal hpackable
  have hdir : w.tree.kind? real = some .dir := by
    obtain ⟨n, hn, -⟩ := hpackable
    obtain ⟨hkind, name, hpath⟩ := w.tree.kind?_of_mem_readdir hn
    rw [hpath] at hkind
    exact w.tree.kind?_of_kind?_append hkind
  have hstat : w.stat real = some .dir := (stat_of_isReal (isReal_of_contained hreal)).trans hdir
  obtain ⟨packed, hpacked⟩ := hfit.2 path segs real hsegs hne hreal hstat
  obtain ⟨plan, hplan, f, hf, hfile⟩ := mem_planZip_of_packable hfit.1 0 hpacked hpackable
  refine h (.download path 0) file ?_
  have hempty : segs.isEmpty = false := by simpa using hne
  simp only [touched, hsegs, Option.elim_some, download, hempty, hreal, hstat, hplan, Bool.false_eq_true, if_false]
  exact List.mem_filterMap.mpr ⟨f, hf, hfile⟩

/-- The routes of the Files tab serve only what may be shown, if neither a request's path nor the zip of its folder
leads to a hidden place; a listing serves every such place a path leads to; and where no zip is over a cap, both
conditions are necessary. -/
theorem serves_shown (w : WorkDir) : (w.RequestsShown → w.ZipsShown → w.Safe) ∧ (w.Safe → w.RequestsShown) ∧
      (w.ZipsFit → (w.Safe ↔ w.RequestsShown ∧ w.ZipsShown)) :=
  ⟨safe_of_shown, requestsShown_of_safe, fun hfit =>
    ⟨fun h => ⟨requestsShown_of_safe h, zipsShown_of_safe hfit h⟩, fun h => safe_of_shown h.1 h.2⟩⟩

/-! ### Trees without links -/

section

variable (hlinks : ∀ n ∈ w.tree.nodes.rows, isLink n = false)
include hlinks

theorem kind?_ne_link (p : FilePath) (target : LinkTarget Name) : w.tree.kind? p ≠ some (.link target) := by
  intro h
  rw [kind?] at h
  split_ifs at h
  · cases h
  · obtain ⟨n, hn, hkind⟩ := Option.map_eq_some_iff.mp h
    have hlink := hlinks n (Keyed.Table.mem_of_find? hn)
    simp [isLink, hkind] at hlink

private theorem Shown.zipEntry {child : FilePath} {kind : FileKindOf} (h : w.Shown real) (hreal : w.tree.IsReal real)
    (hentry : w.zipEntry real n = some (child, kind)) : w.Shown child ∧ w.tree.IsReal child := by
  unfold WorkDir.zipEntry at hentry
  split_ifs at hentry with hname
  obtain ⟨found, hfound, hstat⟩ := Option.bind_eq_some_iff.mp hentry
  obtain ⟨_, -, heq⟩ := Option.map_eq_some_iff.mp hstat
  obtain ⟨rfl, -⟩ := Prod.mk.inj heq
  have hchild := isReal_of_contained hfound
  obtain ⟨realRoot, rel, hroot, hp, hrel⟩ := h
  obtain rfl := w.tree.eq_of_realpath (kind?_ne_link hlinks) (realpath_of_contained hfound)
  rw [realpath_of_isReal hreal] at hp
  cases hp
  refine ⟨⟨realRoot, rel ++ [nameOf n], hroot, ?_, fun seg hseg => ?_⟩, hchild⟩
  · rw [realpath_of_isReal hchild, List.append_assoc]
  · rcases List.mem_append.mp hseg with hseg | hseg
    · exact hrel seg hseg
    · rw [List.mem_singleton.mp hseg]
      simpa using hname

theorem Shown.reachesIn {steps : Nat} {file : FilePath}
    (h : w.Shown real) (hreal : w.tree.IsReal real) (hreach : w.ReachesIn steps real file) : w.Shown file := by
  induction steps generalizing real with
  | zero => exact hreach.elim
  | succ steps ih =>
    obtain ⟨n, -, ⟨info, hfile⟩ | ⟨child, hchild, hrest⟩⟩ := hreach
    · exact (h.zipEntry hlinks hreal hfile).1
    · obtain ⟨hshown, hisReal⟩ := h.zipEntry hlinks hreal hchild
      exact ih hshown hisReal hrest

theorem shown_of_no_link : w.RequestsShown ∧ w.ZipsShown := by
  have hrequests : w.RequestsShown := by
    intro path segs real hsegs hreal
    obtain ⟨realRoot, rel, hroot, rfl⟩ := exists_rel_of_contained hreal
    have hnames := fun seg hseg => (parseRelPath_sound hsegs seg hseg).2
    have hsame := w.tree.eq_of_realpath (kind?_ne_link hlinks) (realpath_of_contained hreal)
    obtain rfl := w.tree.eq_of_realpath (kind?_ne_link hlinks) hroot
    obtain rfl := List.append_cancel_left hsame
    exact ⟨_, rel, hroot, realpath_of_isReal (isReal_of_contained hreal), hnames⟩
  refine ⟨hrequests, fun path segs real file hsegs _ hreal hpackable => ?_⟩
  have hshown := hrequests path segs real hsegs hreal
  obtain ⟨n, -, -, ⟨info, hfile⟩ | ⟨child, hchild, hreach⟩⟩ := hpackable
  · exact (hshown.zipEntry hlinks (isReal_of_contained hreal) hfile).1
  · obtain ⟨hnext, hisReal⟩ := hshown.zipEntry hlinks (isReal_of_contained hreal) hchild
    exact hnext.reachesIn hlinks hisReal hreach

end

/-! ### Two trees -/

def atSrv (nodes : List (FileNode Name FileInfo)) (nodup : (nodes.map FileNode.path).Nodup)
    (below : ∀ n ∈ nodes, n.path ≠ [])
    (parent : ∀ n ∈ nodes, n.path.dropLast = [] ∨
      (Keyed.Table.find? ⟨nodes, nodup⟩ n.path.dropLast).map FileNode.kind = some .dir)
    (names : ∀ n ∈ nodes, ∀ name ∈ n.path, name ≠ [] ∧ '/' ∉ name) : WorkDir where
  tree := { nodes := ⟨nodes, nodup⟩, below, parent }
  names
  workRoot := ["srv".toList]
  maxLinks := 40
  toLowerCase := asciiLowerCase
  localeCompare := fun a b => a = b || List.lex a b (· < ·)
  browserOpens := fun name => ".txt".toList.isSuffixOf name

def textFile : FileInfo := { size := 3, mtimeMs := 0, binary := false }

def plainDir : WorkDir := atSrv [⟨["srv".toList], .dir⟩, ⟨["srv".toList, "docs".toList], .dir⟩,
    ⟨["srv".toList, "docs".toList, "a.txt".toList], .file textFile⟩]
  (by decide) (by decide) (by decide) (by decide)

theorem plainDir_no_link : ∀ n ∈ plainDir.tree.nodes.rows, isLink n = false := by decide

theorem plainDir_packs :
    plainDir.packChildren filesCaps ["srv".toList, "docs".toList] SEARCH_MAX_DEPTH "docs".toList =
      .ok ([⟨some ["srv".toList, "docs".toList, "a.txt".toList], "docs/a.txt".toList, 3, 0⟩], []) := by
  decide +kernel

theorem plainDir_fits : plainDir.ZipsFit := by
  refine ⟨fun d => (List.length_filter_le _ _).trans (by decide), fun path segs real _ hne hreal hstat => ?_⟩
  have hisReal := isReal_of_contained hreal
  have hsame := plainDir.tree.eq_of_realpath (kind?_ne_link plainDir_no_link) (realpath_of_contained hreal)
  rw [stat_of_isReal hisReal, kind?, if_neg (by rw [hsame]; simp [plainDir, atSrv])] at hstat
  obtain ⟨n, hn, hdir⟩ := Option.map_eq_some_iff.mp hstat
  have hpath := Keyed.Table.key_of_find? hn
  have hrows : ∀ n ∈ plainDir.tree.nodes.rows, n.kind = .dir → n.path ≠ plainDir.workRoot →
      n.path = ["srv".toList, "docs".toList] := by decide
  have hdocs := hrows n (Keyed.Table.mem_of_find? hn) hdir (by rw [hpath, hsame]; simpa [plainDir, atSrv] using hne)
  obtain rfl : real = ["srv".toList, "docs".toList] := hpath.symm.trans hdocs
  have hlabel : ["srv".toList, "docs".toList].getLast?.getD [] = "docs".toList := by simp
  rw [hlabel]
  have hpacks := plainDir_packs
  exact ⟨_, hpacks⟩

theorem plain_served : plainDir.Safe ∧ plainDir.RequestsShown ∧ plainDir.ZipsShown := by
  obtain ⟨hsafe, hrequests, hiff⟩ := serves_shown plainDir
  obtain ⟨hshown, hzips⟩ := shown_of_no_link plainDir_no_link
  have h := hsafe hshown hzips
  exact ⟨h, hrequests h, ((hiff plainDir_fits).mp h).2⟩

def linkedDir : WorkDir := atSrv [⟨["srv".toList], .dir⟩, ⟨["srv".toList, ".git".toList], .dir⟩,
    ⟨["srv".toList, ".git".toList, "HEAD".toList], .file textFile⟩,
    ⟨["srv".toList, "docs".toList], .link ⟨false, [.down ".git".toList]⟩⟩]
  (by decide) (by decide) (by decide) (by decide)

/-- Listing `docs/HEAD` serves a file in the hidden `.git`. -/
theorem git_served : ¬linkedDir.Safe := by
  intro h
  have hlisted : ["srv".toList, ".git".toList, "HEAD".toList] ∈ linkedDir.touched (.list "docs/HEAD".toList) := by
    decide +kernel
  have hsrv : linkedDir.realRoot = some ["srv".toList] := by decide +kernel
  have hreal : linkedDir.realpath ["srv".toList, ".git".toList, "HEAD".toList] =
      some (["srv".toList] ++ [".git".toList, "HEAD".toList]) := by decide +kernel
  obtain ⟨realRoot, rel, hroot, hp, hrel⟩ := h (.list "docs/HEAD".toList) _ hlisted
  obtain rfl := Option.some.inj (hsrv.symm.trans hroot)
  have hrest := List.append_cancel_left (Option.some.inj (hreal.symm.trans hp))
  have hgit := hrel ".git".toList (by rw [← hrest]; exact List.mem_cons_self)
  have hrefused : isRefusedName ".git".toList = true := by decide +kernel
  rw [hrefused] at hgit
  cases hgit

end WorkDir

end Sightr.Files
