import Sightr.Files.Zip

/-!
# The names of a zip

Every file of a plan is named by its path below the folder. The walk of a child folder meets a path once: the folders
of one depth have different paths, and the entries of a folder different names.
-/

namespace Sightr.Files

open JsText FileTree

namespace WorkDir

/-! ### Paths -/

variable {p : List Name}

theorem joinPath_cons (label : PathText) (h : p ≠ []) : joinPath (label :: p) = label ++ '/' :: joinPath p := by
  cases p with
  | nil => exact absurd rfl h
  | cons name p => rw [joinPath, List.intercalate_cons_cons, List.append_assoc]; rfl

theorem joinPath_joinPath (label : PathText) (name : Name) (p : List Name) :
    joinPath (joinPath [label, name] :: p) = joinPath (label :: name :: p) := by
  cases p with
  | nil => simp [joinPath]
  | cons next p =>
    rw [joinPath_cons (joinPath [label, name]) (List.cons_ne_nil next p),
      joinPath_cons label (List.cons_ne_nil name (next :: p)), joinPath_cons name (List.cons_ne_nil next p)]
    simp [joinPath]

variable {q : List Name}

theorem joinPath_inj {label : PathText} (hp : p ≠ []) (hq : q ≠ []) (hpNames : ∀ name ∈ p, IsFileName name)
    (hqNames : ∀ name ∈ q, IsFileName name) (h : joinPath (label :: p) = joinPath (label :: q)) : p = q := by
  rw [joinPath_cons label hp, joinPath_cons label hq] at h
  have htail : joinPath p = joinPath q := (List.cons.inj (List.append_cancel_left h)).2
  rw [← splitOn_joinPath hp hpNames, htail, splitOn_joinPath hq hqNames]

variable {w : WorkDir} {caps : ZipCaps} {folder : FilePath} {label : PathText} {deep : Bool} {rel : List Name}

/-! ### The entries of a folder -/

variable {n : FileNode Name FileInfo}

theorem path_of_mem_readdir (h : n ∈ w.tree.readdir folder) : n.path = folder ++ [nameOf n] := by
  obtain ⟨hmem, hfolder⟩ := List.mem_filter.mp h
  have hne := w.tree.below n hmem
  rw [← of_decide_eq_true hfolder, nameOf, List.getLast?_eq_some_getLast hne, Option.getD_some,
    List.dropLast_concat_getLast]

theorem nodup_names_readdir : ((w.tree.readdir folder).map nameOf).Nodup := by
  have hpaths : ((w.tree.readdir folder).map FileNode.path).Nodup :=
    w.tree.nodes.nodup.sublist (List.filter_sublist.map _)
  refine List.Nodup.of_map (f := fun name => folder ++ [name]) ?_
  rw [List.map_map]
  have hsame : (w.tree.readdir folder).map FileNode.path =
      (w.tree.readdir folder).map ((fun name => folder ++ [name]) ∘ nameOf) :=
    List.map_congr_left fun n hn => path_of_mem_readdir hn
  exact hsame ▸ hpaths

theorem isFileName_of_mem_readdir (h : n ∈ w.tree.readdir folder) : IsFileName (nameOf n) :=
  w.names n (List.mem_of_mem_filter h) _ (by rw [path_of_mem_readdir h]; simp)

/-! ### One depth of the walk -/

/-- Distinct paths, each of a name that the file system can hold behind one of the given paths. -/
structure Extends (parents paths : List (List Name)) : Prop where
  nodup : paths.Nodup
  last : ∀ p ∈ paths, ∃ parent ∈ parents, ∃ name, IsFileName name ∧ p = parent ++ [name]

theorem Extends.nil (parents : List (List Name)) : Extends parents [] :=
  ⟨List.nodup_nil, fun _ h => absurd h List.not_mem_nil⟩

theorem extends_of_names {names : List Name} (hnodup : names.Nodup) (hnames : ∀ name ∈ names, IsFileName name)
    (rel : List Name) : Extends [rel] (names.map fun name => rel ++ [name]) := by
  refine ⟨hnodup.map fun a b h => ?_, fun p hp => ?_⟩
  · exact List.singleton_inj.mp (List.append_cancel_left h)
  · obtain ⟨name, hname, rfl⟩ := List.mem_map.mp hp
    exact ⟨rel, List.mem_singleton_self _, name, hnames name hname, rfl⟩

variable {parents : List (List Name)}

theorem Extends.append {parent : List Name} {first rest : List (List Name)} (h : Extends [parent] first)
    (hrest : Extends parents rest) (hnew : parent ∉ parents) : Extends (parent :: parents) (first ++ rest) := by
  refine ⟨List.nodup_append.mpr ⟨h.nodup, hrest.nodup, ?_⟩, fun p hp => ?_⟩
  · rintro p hp q hq rfl
    obtain ⟨a, ha, name, -, rfl⟩ := h.last p hp
    obtain ⟨b, hb, other, -, heq⟩ := hrest.last _ hq
    obtain ⟨rfl, -⟩ := List.append_inj' heq rfl
    obtain rfl := List.mem_singleton.mp ha
    exact hnew hb
  · obtain hp | hp := List.mem_append.mp hp
    · obtain ⟨a, ha, hname⟩ := h.last p hp
      obtain rfl := List.mem_singleton.mp ha
      exact ⟨a, List.mem_cons_self .., hname⟩
    · obtain ⟨b, hb, hname⟩ := hrest.last p hp
      exact ⟨b, List.mem_cons_of_mem _ hb, hname⟩

variable {paths : List (List Name)}

theorem Extends.mono {more : List (List Name)} (h : Extends parents paths) (hsub : parents ⊆ more) :
    Extends more paths :=
  ⟨h.nodup, fun p hp => (h.last p hp).imp fun _ ha => ⟨hsub ha.1, ha.2⟩⟩

/-- The files of some names, and the folders of others, are added. -/
structure Adds (label : PathText) (st : Collected) (next : List (FilePath × List Name))
    (after : Collected × List (FilePath × List Name)) (files dirs : List (List Name)) : Prop where
  files_eq : after.1.files.map (·.name) = st.files.map (·.name) ++ files.map fun p => joinPath (label :: p)
  dirs_eq : after.2.map (·.2) = next.map (·.2) ++ dirs

variable {entries : List (FileNode Name FileInfo)} {st : Collected} {next : List (FilePath × List Name)}
  {after : Collected × List (FilePath × List Name)}

theorem collectEntries_adds (h : w.collectEntries caps label deep folder rel entries st next = .ok after) :
    ∃ files dirs : List Name, files.Sublist (entries.map nameOf) ∧ dirs.Sublist (entries.map nameOf) ∧
      Adds label st next after (files.map fun name => rel ++ [name]) (dirs.map fun name => rel ++ [name]) := by
  fun_induction WorkDir.collectEntries w caps label deep folder rel entries st next with
  | case1 st next =>
    obtain rfl := Except.ok.inj h
    exact ⟨[], [], List.nil_sublist _, List.nil_sublist _, by simp, by simp⟩
  | case2 n rest st next real hentry ih =>
    obtain ⟨files, dirs, hfiles, hdirs, hadds⟩ := ih h
    by_cases hdeep : deep = true
    · refine ⟨files, nameOf n :: dirs, hfiles.cons _, hdirs.cons_cons _, hadds.files_eq, ?_⟩
      rw [hadds.dirs_eq, if_pos hdeep]
      simp
    · refine ⟨files, dirs, hfiles.cons _, hdirs.cons _, hadds.files_eq, ?_⟩
      rw [hadds.dirs_eq, if_neg hdeep]
  | case3 => cases h
  | case4 => cases h
  | case5 n rest st next real info hentry all hmany hlarge ih =>
    obtain ⟨files, dirs, hfiles, hdirs, hadds⟩ := ih h
    refine ⟨nameOf n :: files, dirs, hfiles.cons_cons _, hdirs.cons _, ?_, hadds.dirs_eq⟩
    rw [hadds.files_eq]
    simp [all]
  | case6 n rest st next hdir hfile ih =>
    obtain ⟨files, dirs, hfiles, hdirs, hadds⟩ := ih h
    exact ⟨files, dirs, hfiles.cons _, hdirs.cons _, hadds⟩

variable {queue : List (FilePath × List Name)}

theorem collectLevel_adds (hqueue : (queue.map (·.2)).Nodup)
    (h : w.collectLevel caps label deep queue st next = .ok after) :
    ∃ files dirs : List (List Name), Extends (queue.map (·.2)) files ∧ Extends (queue.map (·.2)) dirs ∧
      Adds label st next after files dirs := by
  induction queue generalizing st next with
  | nil =>
    obtain rfl := Except.ok.inj h
    exact ⟨[], [], .nil _, .nil _, by simp, by simp⟩
  | cons p rest ih =>
    rw [List.map_cons, List.nodup_cons] at hqueue
    rw [WorkDir.collectLevel] at h
    split_ifs at h
    · obtain ⟨files, dirs, hfiles, hdirs, hadds⟩ := ih hqueue.2 h
      have hsub := List.subset_cons_self p.2 (rest.map (·.2))
      exact ⟨files, dirs, hfiles.mono hsub, hdirs.mono hsub, hadds⟩
    · obtain ⟨between, hentries, hafter⟩ := Except.bind_eq_ok.mp h
      obtain ⟨names, others, hnames, hothers, hadds⟩ := collectEntries_adds hentries
      obtain ⟨files, dirs, hfiles, hdirs, hmore⟩ := ih hqueue.2 hafter
      have hperm := List.mergeSort_perm (w.tree.readdir p.1) w.entryOrder
      have hlisted : ((((w.tree.readdir p.1).mergeSort w.entryOrder).take caps.maxEntries).map nameOf).Nodup :=
        ((hperm.map nameOf).nodup_iff.mpr nodup_names_readdir).sublist ((List.take_sublist _ _).map nameOf)
      have hvalid : ∀ name ∈ (((w.tree.readdir p.1).mergeSort w.entryOrder).take caps.maxEntries).map nameOf,
          IsFileName name := by
        intro name hname
        obtain ⟨n, hn, rfl⟩ := List.mem_map.mp hname
        exact isFileName_of_mem_readdir (hperm.subset (List.mem_of_mem_take hn))
      have hextends {found : List Name} (hfound : found.Sublist _) :=
        extends_of_names (hlisted.sublist hfound) (fun name hname => hvalid name (hfound.subset hname)) p.2
      refine ⟨_, _, (hextends hnames).append hfiles hqueue.1, (hextends hothers).append hdirs hqueue.1, ?_, ?_⟩
      · rw [hmore.files_eq, hadds.files_eq, List.map_append, List.append_assoc]
      · rw [hmore.dirs_eq, hadds.dirs_eq, List.append_assoc]

/-! ### The walk of a child -/

/-- A path below a folder, of more segments than so many. -/
def Below (depth : Nat) (p : List Name) : Prop := depth < p.length ∧ ∀ name ∈ p, IsFileName name

variable {depth : Nat}

theorem Extends.below (h : Extends parents paths)
    (hparents : ∀ p ∈ parents, p.length = depth ∧ ∀ name ∈ p, IsFileName name) :
    ∀ p ∈ paths, p.length = depth + 1 ∧ ∀ name ∈ p, IsFileName name := by
  intro p hp
  obtain ⟨parent, hparent, name, hname, rfl⟩ := h.last p hp
  obtain ⟨hlength, hnames⟩ := hparents parent hparent
  refine ⟨by rw [List.length_append, hlength, List.length_singleton], fun other hother => ?_⟩
  obtain hother | hother := List.mem_append.mp hother
  · exact hnames other hother
  · exact List.mem_singleton.mp hother ▸ hname

theorem collectFrom_adds {level : Nat} {last : Collected} (hqueue : (queue.map (·.2)).Nodup)
    (hlevel : ∀ p ∈ queue.map (·.2), p.length = level ∧ ∀ name ∈ p, IsFileName name)
    (h : w.collectFrom caps label depth queue st = .ok last) :
    ∃ paths : List (List Name), paths.Nodup ∧ (∀ p ∈ paths, Below level p) ∧
      last.files.map (·.name) = st.files.map (·.name) ++ paths.map fun p => joinPath (label :: p) := by
  induction depth generalizing queue st level with
  | zero =>
    obtain ⟨after, hafter, hpure⟩ := Except.bind_eq_ok.mp h
    obtain rfl := Except.ok.inj hpure
    obtain ⟨files, dirs, hfiles, hdirs, hadds⟩ := collectLevel_adds hqueue hafter
    refine ⟨files, hfiles.nodup, fun p hp => ?_, hadds.files_eq⟩
    obtain ⟨hlength, hnames⟩ := hfiles.below hlevel p hp
    exact ⟨by omega, hnames⟩
  | succ depth ih =>
    obtain ⟨after, hafter, hrest⟩ := Except.bind_eq_ok.mp h
    obtain ⟨files, dirs, hfiles, hdirs, hadds⟩ := collectLevel_adds hqueue hafter
    have hnext : after.2.map (·.2) = dirs := by rw [hadds.dirs_eq, List.map_nil, List.nil_append]
    obtain ⟨paths, hpaths, hbelow, hlast⟩ := ih (hnext ▸ hdirs.nodup) (hnext ▸ hdirs.below hlevel) hrest
    refine ⟨files ++ paths, List.nodup_append.mpr ⟨hfiles.nodup, hpaths, ?_⟩, fun p hp => ?_, ?_⟩
    · rintro p hp q hq rfl
      have hshort := (hfiles.below hlevel p hp).1
      have hlong := (hbelow p hq).1
      omega
    · obtain hp | hp := List.mem_append.mp hp
      · obtain ⟨hlength, hnames⟩ := hfiles.below hlevel p hp
        exact ⟨by omega, hnames⟩
      · exact ⟨by have hlong := (hbelow p hp).1; omega, (hbelow p hp).2⟩
    · rw [hlast, hadds.files_eq, List.map_append, List.append_assoc]

/-! ### The children -/

/-- A child's files are named by distinct paths below it, the file of a child that is no folder by the empty one. -/
def ChildNamed (label : PathText) (c : ZipChild) : Prop :=
  IsFileName c.name ∧ ∃ paths : List (List Name), paths.Nodup ∧ (∀ p ∈ paths, ∀ name ∈ p, IsFileName name) ∧
    (c.files.map (·.name)).Perm (paths.map fun p => joinPath (label :: c.name :: p))

variable {name : Name}

theorem childNamed_file (hname : IsFileName name) (real : FilePath) (info : FileInfo) : ChildNamed label {
      name, dir := false, total := info.size
      files := [{
        real := some real, name := joinPath [label, name], size := info.size, mtimeMs := info.mtimeMs }] } :=
  ⟨hname, [[]], List.nodup_singleton _, by simp, .refl _⟩

theorem childNamed_dir {real : FilePath} {files : List ZipFile} {total : Nat} (hname : IsFileName name)
    (h : w.collectZipEntries caps real depth (joinPath [label, name]) = .ok (files, total)) :
    ChildNamed label { name, dir := true, files, total } := by
  obtain ⟨last, hlast, hpure⟩ := Except.bind_eq_ok.mp h
  obtain ⟨rfl, -⟩ := Prod.mk.inj (Except.ok.inj hpure)
  have htop : ∀ p ∈ [(real, ([] : List Name))].map (·.2), p.length = 0 ∧ ∀ name ∈ p, IsFileName name := by simp
  obtain ⟨paths, hnodup, hbelow, hnames⟩ := collectFrom_adds (by simp) htop hlast
  refine ⟨hname, paths, hnodup, fun p hp => (hbelow p hp).2, ?_⟩
  have hperm := (List.mergeSort_perm last.files w.byName).map (·.name)
  rw [hnames] at hperm
  refine hperm.trans (List.Perm.of_eq ?_)
  exact List.map_congr_left fun p _ => joinPath_joinPath label name p

variable {maxDepth : Nat} {included : List ZipChild} {omitted : List PathText}

theorem packEntries_named (hentries : ∀ n ∈ entries, n ∈ w.tree.readdir folder)
    (h : ∀ c ∈ included, ChildNamed label c) :
    (∀ c ∈ (w.packEntries caps folder maxDepth label entries included omitted).1, ChildNamed label c) ∧
      ∃ names, names.Sublist (entries.map nameOf) ∧ SKIPPED_ZIP_ENTRY ∉ names ∧
        (w.packEntries caps folder maxDepth label entries included omitted).1.map (·.name) =
          included.map (·.name) ++ names := by
  have hadd (included : List ZipChild) (c : ZipChild) (h : ∀ c ∈ included, ChildNamed label c)
      (hc : ChildNamed label c) : ∀ d ∈ included ++ [c], ChildNamed label d := by
    intro d hd
    obtain hd | hd := List.mem_append.mp hd
    · exact h d hd
    · exact List.mem_singleton.mp hd ▸ hc
  fun_induction packEntries w caps folder maxDepth label entries included omitted with
  | case1 => exact ⟨h, [], List.nil_sublist _, List.not_mem_nil, by simp⟩
  | case2 n rest included omitted hskip ih =>
    obtain ⟨hnamed, names, hsub, hnote, heq⟩ := ih (fun m hm => hentries m (List.mem_cons_of_mem n hm)) h
    exact ⟨hnamed, names, hsub.cons _, hnote, heq⟩
  | case3 n rest included omitted hskip real info hentry hlarge ih =>
    obtain ⟨hnamed, names, hsub, hnote, heq⟩ := ih (fun m hm => hentries m (List.mem_cons_of_mem n hm)) h
    exact ⟨hnamed, names, hsub.cons _, hnote, heq⟩
  | case4 n rest included omitted hskip real info hentry hfits ih =>
    obtain ⟨hnamed, names, hsub, hnote, heq⟩ := ih (fun m hm => hentries m (List.mem_cons_of_mem n hm))
      (hadd _ _ h (childNamed_file (isFileName_of_mem_readdir (hentries n List.mem_cons_self)) real info))
    refine ⟨hnamed, nameOf n :: names, hsub.cons_cons _, List.not_mem_cons_of_ne_of_not_mem (Ne.symm hskip) hnote, ?_⟩
    rw [heq, List.map_append, List.append_assoc]
    rfl
  | case5 n rest included omitted hskip real depth hdepth hentry failure hcollect ih =>
    subst hdepth
    obtain ⟨hnamed, names, hsub, hnote, heq⟩ := ih (fun m hm => hentries m (List.mem_cons_of_mem n hm)) h
    exact ⟨hnamed, names, hsub.cons _, hnote, heq⟩
  | case6 n rest included omitted hskip real depth hdepth hentry files total hcollect ih =>
    subst hdepth
    obtain ⟨hnamed, names, hsub, hnote, heq⟩ := ih (fun m hm => hentries m (List.mem_cons_of_mem n hm))
      (hadd _ _ h (childNamed_dir (isFileName_of_mem_readdir (hentries n List.mem_cons_self)) hcollect))
    refine ⟨hnamed, nameOf n :: names, hsub.cons_cons _, List.not_mem_cons_of_ne_of_not_mem (Ne.symm hskip) hnote, ?_⟩
    rw [heq, List.map_append, List.append_assoc]
    rfl
  | case7 n rest included omitted hskip hother hother' ih =>
    obtain ⟨hnamed, names, hsub, hnote, heq⟩ := ih (fun m hm => hentries m (List.mem_cons_of_mem n hm)) h
    exact ⟨hnamed, names, hsub.cons _, hnote, heq⟩

theorem sublist_of_dropFattest {fuel : Nat} {kept : List ZipChild} {dropped : List PathText}
    (h : dropFattest caps fuel included omitted = .ok (kept, dropped)) : kept.Sublist included := by
  fun_induction dropFattest caps fuel included omitted with
  | case1 fuel included omitted overBytes overCount hfits =>
    obtain ⟨rfl, -⟩ := Prod.mk.inj (Except.ok.inj h)
    exact List.Sublist.refl _
  | case2 => cases h
  | case3 =>
    obtain ⟨rfl, -⟩ := Prod.mk.inj (Except.ok.inj h)
    exact List.Sublist.refl _
  | case4 included omitted overBytes overCount hfits fuel i hfattest ih =>
    exact (ih h).trans (List.eraseIdx_sublist ..)

/-! ### The plan -/

variable {c : ZipChild}

theorem ChildNamed.exists_path (h : ChildNamed label c) {text : PathText} (ht : text ∈ c.files.map (·.name)) :
    ∃ p : List Name, (∀ name ∈ p, IsFileName name) ∧ text = joinPath (label :: c.name :: p) := by
  obtain ⟨-, paths, -, hpaths, hperm⟩ := h
  obtain ⟨p, hp, rfl⟩ := List.mem_map.mp (hperm.mem_iff.mp ht)
  exact ⟨p, hpaths p hp, rfl⟩

theorem joinPath_inj_cons {a b : Name} (ha : IsFileName a) (hb : IsFileName b) (hp : ∀ name ∈ p, IsFileName name)
    (hq : ∀ name ∈ q, IsFileName name) (h : joinPath (label :: a :: p) = joinPath (label :: b :: q)) :
    a = b ∧ p = q :=
  List.cons.inj (joinPath_inj (List.cons_ne_nil _ _) (List.cons_ne_nil _ _)
    (List.forall_mem_cons.mpr ⟨ha, hp⟩) (List.forall_mem_cons.mpr ⟨hb, hq⟩) h)

theorem ChildNamed.nodup (h : ChildNamed label c) : (c.files.map (·.name)).Nodup := by
  obtain ⟨hname, paths, hnodup, hpaths, hperm⟩ := h
  refine hperm.nodup_iff.mpr (List.Nodup.map_on (fun p hp q hq heq => ?_) hnodup)
  exact (joinPath_inj_cons hname hname (hpaths p hp) (hpaths q hq) heq).2

theorem nodup_names_children {children : List ZipChild} (hnamed : ∀ c ∈ children, ChildNamed label c)
    (hnames : (children.map (·.name)).Nodup) : ((children.flatMap (·.files)).map (·.name)).Nodup := by
  rw [List.map_flatMap]
  refine List.nodup_flatMap.mpr ⟨fun c hc => (hnamed c hc).nodup, ?_⟩
  refine (List.pairwise_map.mp hnames).imp_of_mem fun hc hd hne => ?_
  rintro text ht ht'
  obtain ⟨p, hp, rfl⟩ := (hnamed _ hc).exists_path ht
  obtain ⟨q, hq, heq⟩ := (hnamed _ hd).exists_path ht'
  exact hne (joinPath_inj_cons (hnamed _ hc).1 (hnamed _ hd).1 hp hq heq).1

theorem isFileName_skipped : IsFileName SKIPPED_ZIP_ENTRY := by
  constructor <;> decide

theorem nodup_names_planZip {now : Int} {plan : ZipPlan} (h : w.planZip caps folder maxDepth label now = .ok plan) :
    (plan.files.map (·.name)).Nodup := by
  obtain ⟨packed, hpacked, hplan⟩ := Except.bind_eq_ok.mp h
  obtain ⟨kept, hkept, hpure⟩ := Except.bind_eq_ok.mp hpacked
  obtain rfl := Except.ok.inj hplan
  obtain rfl := Except.ok.inj hpure
  have hnone : ∀ c ∈ ([] : List ZipChild), ChildNamed label c := fun _ hc => absurd hc List.not_mem_nil
  obtain ⟨hnamed, names, hnames, hnote, heq⟩ := packEntries_named (fun _ hn => hn) hnone
  have hsub := sublist_of_dropFattest hkept
  rw [List.map_nil, List.nil_append] at heq
  have hkeptNames : (kept.1.map (·.name)).Nodup :=
    (nodup_names_readdir.sublist hnames).sublist (heq ▸ hsub.map (·.name))
  have hkeptNamed : ∀ c ∈ kept.1, ChildNamed label c := fun c hc => hnamed c (hsub.subset hc)
  have hfiles := nodup_names_children hkeptNamed hkeptNames
  refine (((List.mergeSort_perm _ w.byName).map (·.name)).nodup_iff).mpr ?_
  rw [List.map_append]
  split_ifs
  · rwa [List.map_nil, List.append_nil]
  · refine List.nodup_append.mpr ⟨hfiles, List.nodup_singleton _, ?_⟩
    rintro text ht other hother rfl
    obtain rfl := List.mem_singleton.mp hother
    obtain ⟨f, hf, hname⟩ := List.mem_map.mp ht
    obtain ⟨c, hc, hf⟩ := List.mem_flatMap.mp hf
    obtain ⟨p, hp, hpath⟩ := (hkeptNamed c hc).exists_path (List.mem_map_of_mem hf)
    have hsame := (joinPath_inj_cons (p := []) isFileName_skipped (hkeptNamed c hc).1 (by simp) hp
      (hname.symm.trans hpath)).1
    exact hnote (hsame ▸ heq ▸ List.mem_map_of_mem (hsub.subset hc))

end WorkDir

end Sightr.Files
