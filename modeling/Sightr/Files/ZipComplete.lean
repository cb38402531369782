import Mathlib.Algebra.Order.BigOperators.Group.List
import Sightr.Files.Served
import Sightr.Files.ZipNames

/-!
# What a folder's zip leaves out

The walk of `collectZipEntries` as the source runs it, with one queue of folders, and what a plan promises: it stays
within its caps, and a file it does not hold is below a child that its note names. Two kinds of files are outside
the promise: those deeper than the walk goes, and one beside the note under the note's own name. A folder below the
first is read only up to the cap on the entries, so the promise is for folders that list no more.
-/

namespace Sightr.Files

open JsText FileTree

def ZipPlan.packed (plan : ZipPlan) : List ZipFile := plan.files.filter (·.real.isSome)

namespace WorkDir

/-- A folder in the queue: its real path, its path below the child, and its depth. -/
structure Visit where
  real : FilePath
  rel : List Name
  depth : Nat

variable (w : WorkDir) (caps : ZipCaps)

/-- The walk of a child folder, `none` when the fuel runs out. -/
def collectLoop (label : PathText) (maxDepth : Nat) :
    Nat → List Visit → Collected → Option (Except ZipPlanFailure Collected)
  | _, [], st => some (.ok st)
  | 0, _ :: _, _ => none
  | fuel + 1, current :: queue, st =>
    if current.real ∈ st.seen then collectLoop label maxDepth fuel queue st
    else
      let entries := ((w.tree.readdir current.real).mergeSort w.entryOrder).take caps.maxEntries
      match w.collectEntries caps label (current.depth < maxDepth) current.real current.rel entries
          { st with seen := current.real :: st.seen } [] with
      | .error failure => some (.error failure)
      | .ok (after, next) =>
        collectLoop label maxDepth fuel (queue ++ next.map fun p => ⟨p.1, p.2, current.depth + 1⟩) after

/-- Folders of one depth, as they stand in the queue. -/
def visits (depth : Nat) (folders : List (FilePath × List Name)) : List Visit :=
  folders.map fun p => ⟨p.1, p.2, depth⟩

variable {w caps} {folder file : FilePath} {label : PathText} {deep : Bool} {rel : List Name}

/-! ### The queue -/

theorem collectEntries_append (front : List (FilePath × List Name)) {entries : List (FileNode Name FileInfo)}
    {st : Collected} {next : List (FilePath × List Name)} :
    w.collectEntries caps label deep folder rel entries st (front ++ next) =
      (w.collectEntries caps label deep folder rel entries st next).map fun after => (after.1, front ++ after.2) := by
  induction entries generalizing st next with
  | nil => rfl
  | cons n rest ih =>
    simp only [collectEntries]
    split
    · cases deep
      · exact ih
      · simpa only [if_true, List.append_assoc] using ih
    · split_ifs
      · rfl
      · rfl
      · exact ih
    · exact ih

theorem collectLoop_level {maxDepth depth fuel : Nat} {queue : List (FilePath × List Name)} {st : Collected}
    {next : List (FilePath × List Name)} :
    (∀ failure, w.collectLevel caps label (depth < maxDepth) queue st next = .error failure →
      w.collectLoop caps label maxDepth (queue.length + fuel) (visits depth queue ++ visits (depth + 1) next) st =
        some (.error failure)) ∧
    ∀ after, w.collectLevel caps label (depth < maxDepth) queue st next = .ok after →
      w.collectLoop caps label maxDepth (queue.length + fuel) (visits depth queue ++ visits (depth + 1) next) st =
        w.collectLoop caps label maxDepth fuel (visits (depth + 1) after.2) after.1 := by
  induction queue generalizing st next with
  | nil =>
    refine ⟨fun failure h => (by cases h), fun after h => ?_⟩
    obtain rfl := Except.ok.inj h
    simp [visits]
  | cons p rest ih =>
    have hfuel : (p :: rest).length + fuel = (rest.length + fuel) + 1 := by
      rw [List.length_cons]
      omega
    have hqueue : visits depth (p :: rest) ++ visits (depth + 1) next =
        ⟨p.1, p.2, depth⟩ :: (visits depth rest ++ visits (depth + 1) next) := rfl
    rw [hfuel, hqueue]
    simp only [collectLoop, collectLevel]
    by_cases hseen : p.1 ∈ st.seen
    · simp only [if_pos hseen]
      exact ih
    · simp only [if_neg hseen]
      have happend := @collectEntries_append w caps p.1 label (depth < maxDepth) p.2 next
        (((w.tree.readdir p.1).mergeSort w.entryOrder).take caps.maxEntries)
        { st with seen := p.1 :: st.seen } []
      rw [List.append_nil] at happend
      rw [happend]
      cases hfound : w.collectEntries caps label (depth < maxDepth) p.1 p.2
          (((w.tree.readdir p.1).mergeSort w.entryOrder).take caps.maxEntries)
          { st with seen := p.1 :: st.seen } [] with
      | error failure =>
        refine ⟨fun other h => ?_, fun after h => ?_⟩
        · obtain rfl := Except.error.inj h
          rfl
        · cases h
      | ok found =>
        have hwaits : visits depth rest ++ visits (depth + 1) next ++ visits (depth + 1) found.2 =
            visits depth rest ++ visits (depth + 1) (next ++ found.2) := by
          simp [visits]
        have hrest := @ih found.1 (next ++ found.2)
        rw [← hwaits] at hrest
        exact hrest

variable {entries : List (FileNode Name FileInfo)} {st : Collected} {next : List (FilePath × List Name)}
  {after : Collected × List (FilePath × List Name)}

theorem snd_collectEntries_shallow (h : w.collectEntries caps label false folder rel entries st next = .ok after) :
    after.2 = next := by
  induction entries generalizing st next with
  | nil =>
    obtain rfl := Except.ok.inj h
    rfl
  | cons n rest ih =>
    simp only [collectEntries] at h
    split at h
    · exact ih h
    · split_ifs at h
      exact ih h
    · exact ih h

variable {queue : List (FilePath × List Name)}

theorem snd_collectLevel_shallow (h : w.collectLevel caps label false queue st next = .ok after) :
    after.2 = next := by
  induction queue generalizing st next with
  | nil =>
    obtain rfl := Except.ok.inj h
    rfl
  | cons p rest ih =>
    rw [collectLevel] at h
    split_ifs at h
    · exact ih h
    · obtain ⟨between, hentries, hafter⟩ := Except.bind_eq_ok.mp h
      rw [ih hafter, snd_collectEntries_shallow hentries]

/-- The queue runs empty or a cap stops the walk, and the walk by depths says the same. -/
theorem exists_collectLoop {depth left : Nat} (queue : List (FilePath × List Name)) (st : Collected) :
    ∃ fuel, w.collectLoop caps label (depth + left) fuel (visits depth queue) st =
      some (w.collectFrom caps label left queue st) := by
  induction left generalizing depth queue st with
  | zero =>
    have hlevel := @collectLoop_level w caps label depth depth 0 queue st []
    simp only [lt_irrefl, decide_false] at hlevel
    refine ⟨queue.length, ?_⟩
    cases hafter : w.collectLevel caps label false queue st [] with
    | error failure => simpa [visits, collectFrom, hafter] using hlevel.1 failure hafter
    | ok after =>
      have hnone := snd_collectLevel_shallow hafter
      simpa [visits, collectFrom, hafter, hnone, collectLoop] using hlevel.2 after hafter
  | succ left ih =>
    have hlevel := fun fuel => @collectLoop_level w caps label (depth + (left + 1)) depth fuel queue st []
    have hdeep : depth < depth + (left + 1) := by omega
    simp only [hdeep, decide_true] at hlevel
    cases hafter : w.collectLevel caps label true queue st [] with
    | error failure =>
      have hfrom : w.collectFrom caps label (left + 1) queue st = .error failure := by
        rw [collectFrom, hafter]
        rfl
      rw [hfrom]
      exact ⟨queue.length, by simpa [visits] using (hlevel 0).1 failure hafter⟩
    | ok after =>
      obtain ⟨fuel, hfuel⟩ := @ih (depth + 1) after.2 after.1
      rw [show depth + 1 + left = depth + (left + 1) by omega] at hfuel
      have hfrom : w.collectFrom caps label (left + 1) queue st = w.collectFrom caps label left after.2 after.1 := by
        rw [collectFrom, hafter]
        rfl
      have hnext := (hlevel fuel).2 after hafter
      rw [hfuel] at hnext
      rw [hfrom]
      exact ⟨queue.length + fuel, by simpa [visits] using hnext⟩

/-! ### The caps -/

def sizes (files : List ZipFile) : Nat := (files.map (·.size)).sum

section

variable (hst : st.total = sizes st.files)
include hst

theorem total_collectEntries (h : w.collectEntries caps label deep folder rel entries st next = .ok after) :
    after.1.total = sizes after.1.files := by
  fun_induction WorkDir.collectEntries w caps label deep folder rel entries st next with
  | case1 =>
    obtain rfl := Except.ok.inj h
    exact hst
  | case2 n rest st next real hentry ih => exact ih hst h
  | case3 => cases h
  | case4 => cases h
  | case5 n rest st next real info hentry files hmany hlarge ih =>
    refine ih ?_ h
    simp [files, sizes, hst]
  | case6 n rest st next hother hother' ih => exact ih hst h

theorem total_collectLevel (h : w.collectLevel caps label deep queue st next = .ok after) :
    after.1.total = sizes after.1.files := by
  induction queue generalizing st next with
  | nil =>
    obtain rfl := Except.ok.inj h
    exact hst
  | cons p rest ih =>
    rw [collectLevel] at h
    split_ifs at h
    · exact ih hst h
    · obtain ⟨between, hentries, hafter⟩ := Except.bind_eq_ok.mp h
      have hseen : ({ st with seen := p.1 :: st.seen } : Collected).total = sizes st.files := hst
      exact ih (total_collectEntries hseen hentries) hafter

theorem total_collectFrom {depth : Nat} {last : Collected} (h : w.collectFrom caps label depth queue st = .ok last) :
    last.total = sizes last.files := by
  induction depth generalizing queue st with
  | zero =>
    obtain ⟨after, hlevel, hpure⟩ := Except.bind_eq_ok.mp h
    obtain rfl := Except.ok.inj hpure
    exact total_collectLevel hst hlevel
  | succ depth ih =>
    obtain ⟨after, hlevel, hrest⟩ := Except.bind_eq_ok.mp h
    exact ih (total_collectLevel hst hlevel) hrest

end

variable {maxDepth : Nat} {files : List ZipFile}

theorem total_collectZipEntries {total : Nat}
    (h : w.collectZipEntries caps folder maxDepth label = .ok (files, total)) : total = sizes files := by
  obtain ⟨last, hlast, hpure⟩ := Except.bind_eq_ok.mp h
  obtain ⟨rfl, rfl⟩ := Prod.mk.inj (Except.ok.inj hpure)
  have hsame : sizes (last.files.mergeSort w.byName) = sizes last.files := ((List.mergeSort_perm _ _).map _).sum_nat
  rw [hsame, total_collectFrom (by rfl) hlast]

variable {included : List ZipChild} {omitted : List PathText}

theorem total_packEntries (h : ∀ c ∈ included, c.total = sizes c.files) :
    ∀ c ∈ (w.packEntries caps folder maxDepth label entries included omitted).1, c.total = sizes c.files := by
  have hadd : ∀ (included : List ZipChild) (c : ZipChild), (∀ c ∈ included, c.total = sizes c.files) →
      c.total = sizes c.files → ∀ d ∈ included ++ [c], d.total = sizes d.files := by
    intro included c h hc d hd
    rcases List.mem_append.mp hd with hd | hd
    · exact h d hd
    · rw [List.mem_singleton.mp hd]
      exact hc
  fun_induction packEntries w caps folder maxDepth label entries included omitted with
  | case1 => exact h
  | case2 n rest included omitted hskip ih => exact ih h
  | case3 n rest included omitted hskip real info hentry hlarge ih => exact ih h
  | case4 n rest included omitted hskip real info hentry hfits ih => exact ih (hadd _ _ h (by simp [sizes]))
  | case5 n rest included omitted hskip real depth hdepth hentry failure hcollect ih =>
    subst hdepth
    exact ih h
  | case6 n rest included omitted hskip real depth hdepth hentry files total hcollect ih =>
    subst hdepth
    exact ih (hadd _ _ h (total_collectZipEntries hcollect))
  | case7 n rest included omitted hskip hother hother' ih => exact ih h

variable {fuel : Nat}

theorem length_eraseIdx_le {overBytes : Bool} {i : Nat} (h : fattest overBytes included = some i)
    (hfuel : included.length ≤ fuel + 1) :
    (included.eraseIdx i).length ≤ fuel := by
  rw [List.length_eraseIdx_of_lt (lt_of_fattest h)]
  omega

/-- The children kept fit the caps: as many drops as there are children are enough. -/
theorem fits_of_dropFattest {kept : List ZipChild} {dropped : List PathText} (hfuel : included.length ≤ fuel)
    (h : dropFattest caps fuel included omitted = .ok (kept, dropped)) :
    (kept.map (·.total)).sum ≤ caps.capBytes ∧ (kept.map (·.files.length)).sum ≤ caps.maxEntries := by
  fun_induction dropFattest caps fuel included omitted with
  | case1 fuel included omitted overBytes overCount hfits =>
    obtain ⟨rfl, -⟩ := Prod.mk.inj (Except.ok.inj h)
    simpa [overBytes, overCount] using hfits
  | case2 => cases h
  | case3 included omitted overBytes overCount hfits i hfattest =>
    have hi := lt_of_fattest hfattest
    omega
  | case4 included omitted overBytes overCount hfits fuel i hfattest ih =>
    exact ih (length_eraseIdx_le hfattest hfuel) h

theorem dropFattest_nil (fuel : Nat) (omitted : List PathText) :
    dropFattest caps fuel [] omitted = .ok ([], omitted) := by
  unfold dropFattest
  simp

theorem dropFattest_fuel {more : Nat} (hfuel : included.length ≤ fuel) (hmore : included.length ≤ more) :
    dropFattest caps fuel included omitted = dropFattest caps more included omitted := by
  induction fuel generalizing more included omitted with
  | zero =>
    obtain rfl := List.length_eq_zero_iff.mp (Nat.le_zero.mp hfuel)
    rw [dropFattest_nil, dropFattest_nil]
  | succ fuel ih =>
    cases more with
    | zero =>
      obtain rfl := List.length_eq_zero_iff.mp (Nat.le_zero.mp hmore)
      rw [dropFattest_nil, dropFattest_nil]
    | succ more =>
      unfold dropFattest
      dsimp only
      split
      · rfl
      · cases hfattest : fattest (caps.capBytes < (included.map (·.total)).sum) included with
        | none => rfl
        | some i => exact ih (length_eraseIdx_le hfattest hfuel) (length_eraseIdx_le hfattest hmore)

/-! ### What the plan promises -/

/-- What an entry of the zipped folder leads to: the file itself, or one reached with room in a folder. -/
def LeadsTo (w : WorkDir) (caps : ZipCaps) (folder : FilePath) (maxDepth : Nat) (n : FileNode Name FileInfo)
    (file : FilePath) : Prop :=
  (∃ info, w.zipEntry folder n = some (file, .file info)) ∨
    ∃ child, w.zipEntry folder n = some (child, .dir) ∧ w.ReachesInRoom caps maxDepth child file

def noteOf (w : WorkDir) (caps : ZipCaps) (label : PathText) (now : Int) (omitted : List PathText) : ZipFile where
  real := none
  name := joinPath [label, SKIPPED_ZIP_ENTRY]
  mtimeMs := now
  size := utf8Bytes (skipNote caps (omitted.mergeSort w.localeCompare))

theorem filter_real_le (files : List ZipFile) :
    (files.filter (·.real.isSome)).length ≤ files.length ∧ sizes (files.filter (·.real.isSome)) ≤ sizes files :=
  ⟨List.length_filter_le _ _, (List.filter_sublist.map _).sum_le_sum fun _ _ => Nat.zero_le _⟩

theorem fits_of_packChildren (h : w.packChildren caps folder maxDepth label = .ok (files, omitted)) :
    files.length ≤ caps.maxEntries ∧ sizes files ≤ caps.capBytes := by
  obtain ⟨⟨kept, dropped⟩, hkept, hpure⟩ := Except.bind_eq_ok.mp h
  obtain ⟨rfl, rfl⟩ := Prod.mk.inj (Except.ok.inj hpure)
  obtain ⟨hbytes, hcount⟩ := fits_of_dropFattest le_rfl hkept
  have htotal : ∀ c ∈ kept, c.total = sizes c.files := fun c hc =>
    total_packEntries (by simp) c ((sublist_of_dropFattest hkept).subset hc)
  refine ⟨by rw [List.length_flatMap]; exact hcount, ?_⟩
  rw [List.map_congr_left htotal] at hbytes
  simpa [sizes, List.map_flatMap, List.sum_flatten, List.flatMap, Function.comp_def] using hbytes

/-- The walk of a folder ends. A plan holds no more than the caps allow, its note aside, and a file that an entry of
the folder leads to is in the plan, or the plan's note names the entry. -/
theorem complete_or_noted {w : WorkDir} {caps : ZipCaps} {folder : FilePath} {maxDepth : Nat} {label : PathText}
    {now : Int} :
    (∀ child depth text, ∃ fuel, w.collectLoop caps text depth fuel [⟨child, [], 0⟩] {} =
      some (w.collectFrom caps text depth [(child, [])] {})) ∧
    (∀ (fuel : Nat) (included : List ZipChild) (omitted : List PathText), included.length ≤ fuel →
      dropFattest caps fuel included omitted = dropFattest caps included.length included omitted) ∧
    ∀ plan, w.planZip caps folder maxDepth label now = .ok plan →
      plan.packed.length ≤ caps.maxEntries ∧ sizes plan.packed ≤ caps.capBytes ∧
      ∃ files omitted, w.packChildren caps folder maxDepth label = .ok (files, omitted) ∧
        (omitted ≠ [] → w.noteOf caps label now omitted ∈ plan.files) ∧
        ∀ n ∈ w.tree.readdir folder, nameOf n ≠ SKIPPED_ZIP_ENTRY → ∀ file, w.LeadsTo caps folder maxDepth n file →
          (∃ f ∈ plan.files, f.real = some file) ∨ nameOf n ∈ omitted ∨ nameOf n ++ ['/'] ∈ omitted := by
  refine ⟨fun child depth text => ?_, fun fuel included omitted hfuel => dropFattest_fuel hfuel le_rfl,
    fun plan hplan => ?_⟩
  · have hloop := @exists_collectLoop w caps text 0 depth [(child, [])] {}
    rwa [Nat.zero_add] at hloop
  · obtain ⟨⟨files, omitted⟩, hpacked, hpure⟩ := Except.bind_eq_ok.mp hplan
    obtain rfl := Except.ok.inj hpure
    have hnote : ((if omitted.isEmpty then [] else [w.noteOf caps label now omitted]).filter
        (·.real.isSome)) = ([] : List ZipFile) := by
      split_ifs
      · rfl
      · rfl
    have hkeeps : ((((files ++ if omitted.isEmpty then [] else [w.noteOf caps label now omitted]).mergeSort
        w.byName).filter (·.real.isSome))).Perm (files.filter (·.real.isSome)) := by
      refine ((List.mergeSort_perm _ _).filter _).trans ?_
      rw [List.filter_append, hnote, List.append_nil]
    obtain ⟨hcount, hbytes⟩ := fits_of_packChildren hpacked
    obtain ⟨hfewer, hsmaller⟩ := filter_real_le files
    refine ⟨hkeeps.length_eq.le.trans (hfewer.trans hcount),
      ((hkeeps.map _).sum_nat).le.trans (hsmaller.trans hbytes), files, omitted, hpacked, fun homitted => ?_,
      fun n hn hname file hfile => ?_⟩
    · refine List.mem_mergeSort.mpr (List.mem_append_right _ ?_)
      rw [if_neg (by simpa using homitted)]
      exact List.mem_singleton_self _
    · obtain ⟨f, hf, hreal⟩ | hnoted := mem_packChildren hpacked hn hname hfile
      · exact .inl ⟨f, List.mem_mergeSort.mpr (List.mem_append_left _ hf), hreal⟩
      · exact .inr hnoted

/-- The plan of a folder with one file holds it. -/
theorem complete_or_noted_plain : ∃ plan,
    plainDir.planZip filesCaps ["srv".toList, "docs".toList] SEARCH_MAX_DEPTH "docs".toList 0 = .ok plan ∧
      plan.packed.length ≤ MAX_ENTRIES ∧ sizes plan.packed ≤ DOWNLOAD_CAP_BYTES ∧
      ∃ f ∈ plan.files, f.real = some ["srv".toList, "docs".toList, "a.txt".toList] := by
  have hpacks : plainDir.packChildren filesCaps ["srv".toList, "docs".toList] SEARCH_MAX_DEPTH "docs".toList =
      .ok ([⟨some ["srv".toList, "docs".toList, "a.txt".toList], "docs/a.txt".toList, 3, 0⟩], []) := by
    decide +kernel
  obtain ⟨plan, hplan⟩ : ∃ plan,
      plainDir.planZip filesCaps ["srv".toList, "docs".toList] SEARCH_MAX_DEPTH "docs".toList 0 = .ok plan := by
    rw [planZip, hpacks]
    exact ⟨_, rfl⟩
  obtain ⟨hcount, hbytes, files, omitted, hpacked, -, hholds⟩ := complete_or_noted.2.2 plan hplan
  obtain ⟨-, rfl⟩ := Prod.mk.inj (Except.ok.inj (hpacks.symm.trans hpacked))
  refine ⟨plan, hplan, hcount, hbytes, ?_⟩
  obtain hmem | hnoted | hnoted := hholds
    ⟨["srv".toList, "docs".toList, "a.txt".toList], .file textFile⟩ (by decide +kernel) (by decide +kernel)
    ["srv".toList, "docs".toList, "a.txt".toList] (.inl ⟨textFile, by decide +kernel⟩)
  · exact hmem
  · cases hnoted
  · cases hnoted

/-! ### A file too deep -/

def deepFolder (below : Nat) : FilePath := "srv".toList :: List.replicate (below + 1) "d".toList

/-- Ten folders `d`, one in the other, with a file in the last. -/
def deepDir : WorkDir := atSrv
  (⟨["srv".toList], .dir⟩ :: (List.range 10).map (fun below => ⟨deepFolder below, .dir⟩) ++
    [⟨deepFolder 9 ++ ["f".toList], .file textFile⟩])
  (by decide +kernel) (by decide +kernel) (by decide +kernel) (by decide +kernel)

/-- The plan is empty, with no note, and the file is there. -/
theorem deep_file_missing : deepDir.planZip filesCaps (deepFolder 0) SEARCH_MAX_DEPTH "d".toList 0 = .ok ⟨[], 22⟩ ∧
    deepDir.ReachesInRoom filesCaps 10 (deepFolder 0) (deepFolder 9 ++ ["f".toList]) := by
  have hpacks : deepDir.packChildren filesCaps (deepFolder 0) SEARCH_MAX_DEPTH "d".toList = .ok ([], []) := by
    decide +kernel
  have hroom : ∀ d, (deepDir.tree.readdir d).length ≤ filesCaps.maxEntries := fun d =>
    (List.length_filter_le _ _).trans (by decide +kernel)
  have hnext : ∀ below < 9, ⟨deepFolder (below + 1), .dir⟩ ∈ deepDir.tree.readdir (deepFolder below) ∧
      deepDir.zipEntry (deepFolder below) ⟨deepFolder (below + 1), .dir⟩ = some (deepFolder (below + 1), .dir) := by
    decide +kernel
  have hreach : ∀ left ≤ 9, deepDir.ReachesInRoom filesCaps (left + 1) (deepFolder (9 - left))
      (deepFolder 9 ++ ["f".toList]) := by
    intro left hleft
    induction left with
    | zero =>
      exact ⟨hroom _, ⟨deepFolder 9 ++ ["f".toList], .file textFile⟩, by decide +kernel,
        .inl ⟨textFile, by decide +kernel⟩⟩
    | succ left ih =>
      obtain ⟨hmem, hentry⟩ := hnext (9 - (left + 1)) (by omega)
      rw [show 9 - (left + 1) + 1 = 9 - left by omega] at hmem hentry
      exact ⟨hroom _, _, hmem, .inr ⟨_, hentry, ih (by omega)⟩⟩
  refine ⟨?_, hreach 9 le_rfl⟩
  rw [planZip, hpacks]
  simp [bind, Except.bind, pure, Except.pure, archiveSize]

end WorkDir

end Sightr.Files
